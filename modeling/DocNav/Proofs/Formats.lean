import DocNav.NavData
import DocNav.Proofs.Assignments
import DocNav.Proofs.Literals
/-!
# The two forms of navigation data

A script assigns the tree, the list of deep links and the two messages in turn; an object has them as its fields. The
literals of a script are cut out and read as the JSON texts and the messages that they are, whatever the texts in them
contain, with one exception: an assignment is looked for in the whole script, so a label or a message that holds an
assignment to a later name is taken for it (`label_taken_for_the_index`). Main result: the script gives what the object
gives, errors included, exactly if the tree is refused or what is taken from the literals is the same as what is
assigned behind them (`readScript_eq_readJson`).
-/

namespace DocNav

namespace Script

open CharClass (isWord)

/-! ## The values of a script -/

theorem isBlank_of_blank {b : List Char} (hb : Json.Blank b) : ∀ c ∈ b, CharClass.isBlank c = true :=
  hb.elim (List.all_eq_true.1 (by rfl))

/-- The array that is assigned at the front is the one that is read, whatever follows it. -/
theorem listLiteral?_of_assigns {name s b text t : List Char} {js : List Json} (hname : ∀ c ∈ name, isWord c = true)
    (hassigns : Assigns name s (b ++ (text ++ t))) (hb : ∀ c ∈ b, CharClass.isBlank c = true)
    (h : Json.Text (.array js) text) :
    ∃ literal, listLiteral? name s = some literal ∧ Json.read? literal = some (.array js) := by
  cases h with | @mk j front literal back hfront hliteral hback
  have hfind : findAssigned name some false s =
      some ((b ++ (front ++ (literal ++ back) ++ t)).dropWhile CharClass.isBlank) :=
    findAssigned_of_assigns hname hassigns rfl
  have hdrop : (b ++ (front ++ (literal ++ back) ++ t)).dropWhile CharClass.isBlank = literal ++ (back ++ t) := by
    have hblanks : ∀ c ∈ b ++ front, CharClass.isBlank c = true :=
      List.forall_mem_append.2 ⟨hb, isBlank_of_blank hfront⟩
    obtain ⟨u, rfl⟩ : ∃ u, literal = '[' :: u := by cases hliteral <;> exact ⟨_, rfl⟩
    simpa using dropWhile_blanks (c := '[') hblanks (s := u ++ (back ++ t)) rfl
  refine ⟨literal, ?_, Json.read?_eq_some_iff.2 hliteral.text⟩
  rw [listLiteral?, hfind, hdrop]
  exact balanced_of_text hliteral (.inl ⟨js, rfl⟩) _

theorem listLiteral?_assignment {name text : List Char} {js : List Json} (hname : ∀ c ∈ name, isWord c = true)
    (h : Json.Text (.array js) text) (t : List Char) :
    ∃ s, listLiteral? name (assignment name text ++ t) = some s ∧ Json.read? s = some (.array js) :=
  listLiteral?_of_assigns (b := [' ']) hname (assigns_assignment name text t) (List.all_eq_true.1 (by rfl)) h

/-- Blanks at the front are passed over. -/
theorem listLiteral?_behind_blanks (name : List Char) {b : List Char} (hb : ∀ c ∈ b, CharClass.isBlank c = true)
    (s : List Char) : listLiteral? name (b ++ s) = listLiteral? name s := by
  have hskips : Skips name b := by
    induction b with
    | nil => exact fun _ _ _ => rfl
    | cons c b ih =>
      obtain ⟨hc, hb⟩ := List.forall_mem_cons.1 hb
      have hword : isWord c = false := by
        by_contra hword
        rw [CharClass.isBlank_of_isWord (Bool.not_eq_false _ ▸ hword)] at hc
        cases hc
      exact (Skips.char hword).append (ih hb)
  rw [listLiteral?, listLiteral?, hskips]

/-- The message that is assigned at the front is the one that is read. -/
theorem message?_assignment {name text m : List Char} (hname : ∀ c ∈ name, isWord c = true)
    (h : MessageText m text) (t : List Char) : message? name (assignment name text ++ t) = some m := by
  refine findAssigned_of_assigns hname (assigns_assignment name _ t) ?_
  have hdrop : (' ' :: (text ++ ';' :: t)).dropWhile CharClass.isBlank = text ++ ';' :: t := by
    cases h with | @mk mark m s hmark h
    have hmark : CharClass.isBlank mark = false := by
      simp only [List.mem_cons, List.not_mem_nil, or_false] at hmark
      obtain rfl | rfl := hmark <;> rfl
    exact dropWhile_blanks (b := [' ']) (List.all_eq_true.1 (by rfl)) hmark
  rw [hdrop]
  exact quoted?_of_message h _

end Script

namespace NavData

open Script (assignment Mentions Skips MessageText)

/-- The data as a script that assigns the tree, the list of deep links and the two messages in turn. -/
def script (tree index on off : List Char) : List Char :=
  assignment "NAVTREE".toList ('[' :: (tree ++ [']'])) ++ ' ' ::
    (assignment "NAVTREEINDEX".toList index ++ ' ' ::
      (assignment "SYNCONMSG".toList on ++ ' ' :: assignment "SYNCOFFMSG".toList off))

/-! ## What each form gives -/

/-- The root of a tree, as both forms check it. -/
def rootOf (tree : Json) : Except DataError Node :=
  (orMalformed (Record.ofJson? (bracketLimit - 1) tree)).bind fun r => (Record.toNode [] r).mapError .unlinked

theorem readRoot_of_read {s : List Char} {tree : Json} (h : Json.read? s = some (.array [tree])) :
    readRoot s = rootOf tree := by
  cases hr : Record.ofJson? (bracketLimit - 1) tree with
  | none =>
    simp only [readRoot, rootOf, h, Option.bind_eq_bind, Option.bind_some, Record.listOfJson?, hr]
    rfl
  | some r =>
    simp only [readRoot, rootOf, h, Option.bind_eq_bind, Option.bind_some, Record.listOfJson?, hr]
    rfl

/-- The object of the data, its fields in their order. -/
def object (tree index : Json) (on off : List Char) : Json :=
  .object [(some "tree", tree), (some "index", index), (some "sync_on_message", .string (some (.ofList on))),
    (some "sync_off_message", .string (some (.ofList off)))]

theorem readJson_of_read {s on off : List Char} {tree index : Json} {refs : List String}
    (h : Json.read? s = some (object tree index on off)) (hrefs : index.asTexts? = some refs) :
    readJson s = (rootOf tree).map fun root =>
      { root, bootstrap := refs.map PageRef.mk, whileLinked := some (.ofList on),
        whileUnlinked := some (.ofList off) } := by
  have hrecord : (object tree index on off).asRecord? fieldNames =
      some [some tree, some index, none, some (.string (some (.ofList on))),
        some (.string (some (.ofList off)))] := by
    simp [object, Json.asRecord?, Json.asFields?, fieldNames, Json.fieldOnce?]
  have hfields : fieldsOfJson? (object tree index on off) = (Record.ofJson? (bracketLimit - 1) tree).map fun r =>
      ⟨r, refs, [], some (.ofList on), some (.ofList off)⟩ := by
    simp only [fieldsOfJson?, hrecord, Option.bind_eq_bind, Option.bind_some, Option.map_some, Option.getD_some,
      hrefs, Option.map_none, Option.getD_none, Json.asOptionalText?, Option.pure_def]
    cases Record.ofJson? (bracketLimit - 1) tree <;> rfl
  rw [readJson, h, Option.bind_some, hfields, rootOf]
  cases Record.ofJson? (bracketLimit - 1) tree with
  | none => rfl
  | some r =>
    simp only [Option.map_some, orMalformed, bind, Except.bind]
    cases Record.toNode [] r <;> rfl

/-! ## The two forms compared -/

/-- The deep links of the text that an assignment of the list is found to be: none if no list is cut out of it. -/
def listed? (text : List Char) : Option (List String) :=
  match Script.balanced text with
  | none => some []
  | some list => (Json.read? list).bind Json.asTexts?

/-- What stands behind the tree in a script, behind the list of deep links, and behind the first message. -/
def behindTree (index on off : List Char) : List Char :=
  ']' :: ';' :: ' ' :: (assignment "NAVTREEINDEX".toList index ++ ' ' ::
    (assignment "SYNCONMSG".toList on ++ ' ' :: assignment "SYNCOFFMSG".toList off))

def behindIndex (on off : List Char) : List Char :=
  ';' :: ' ' :: (assignment "SYNCONMSG".toList on ++ ' ' :: assignment "SYNCOFFMSG".toList off)

def behindOn (off : List Char) : List Char := ';' :: ' ' :: assignment "SYNCOFFMSG".toList off

theorem readScript_of_found {s treeText v : List Char} {tree : Json}
    (htree : Script.listLiteral? "NAVTREE".toList s = some treeText)
    (htreeRead : Json.read? treeText = some (.array [tree]))
    (hindex : Script.findAssigned "NAVTREEINDEX".toList some false s = some v) :
    readScript s = (rootOf tree).bind fun root => (orMalformed (listed? v)).map fun refs =>
      { root, bootstrap := refs.map PageRef.mk, whileLinked := (Script.message? "SYNCONMSG".toList s).map .ofList,
        whileUnlinked := (Script.message? "SYNCOFFMSG".toList s).map .ofList } := by
  have hlist : Script.listLiteral? "NAVTREEINDEX".toList s = Script.balanced v := by
    rw [Script.listLiteral?, hindex, Option.bind_some]
  simp only [readScript, htree, readRoot_of_read htreeRead, hlist, listed?]
  cases rootOf tree with
  | error e => rfl
  | ok root =>
    cases Script.balanced v with
    | none => rfl
    | some list =>
      cases (Json.read? list).bind Json.asTexts? <;> rfl

/-- The data of a script against those of an object with the same root. -/
theorem found_eq_iff {root : Node} {listed : Option (List String)} {refs : List String} {found₁ found₂ : Option (List Char)}
    {m₁ m₂ : List Char} :
    ((orMalformed listed).map fun refs =>
      ({ root := root, bootstrap := refs.map PageRef.mk, whileLinked := found₁.map .ofList,
         whileUnlinked := found₂.map .ofList } : NavData)) =
      .ok { root := root, bootstrap := refs.map PageRef.mk, whileLinked := some (.ofList m₁),
            whileUnlinked := some (.ofList m₂) } ↔
      listed = some refs ∧ found₁ = some m₁ ∧ found₂ = some m₂ := by
  have hmap : ∀ (found : Option (List Char)) m, found.map String.ofList = some (.ofList m) ↔ found = some m := by
    intro found m
    cases found with
    | none => simp
    | some m' => simp [String.ofList_inj]
  have hrefs : ∀ refs' : List String, refs'.map PageRef.mk = refs.map PageRef.mk ↔ refs' = refs := fun _ =>
    List.map_inj_right fun _ _ h => PageRef.mk.inj h
  cases listed with
  | none => simp [orMalformed, Except.map]
  | some refs' => simp [orMalformed, Except.map, hmap, hrefs]

section
variable {tree index on off m₁ m₂ : List Char}

/-- The text that an assignment of the list is found to be is the list behind the tree, unless the tree offers one. -/
theorem findsIn_index (tree on off : List Char) {index : List Char} {js : List Json} {refs : List String}
    (hindex : Json.Text (.array js) index) (hrefs : Json.asTexts? (.array js) = some refs) :
    ∃ v, listed? v = some refs ∧ Script.FindsIn some "NAVTREEINDEX".toList [(tree, behindTree index on off)]
      (Script.findAssigned "NAVTREEINDEX".toList some false (script tree index on off)) (some v) := by
  have hword : ∀ c ∈ "NAVTREEINDEX".toList, CharClass.isWord c = true := List.all_eq_true.1 (by rfl)
  let rest := ' ' :: (assignment "SYNCONMSG".toList on ++ ' ' :: assignment "SYNCOFFMSG".toList off)
  obtain ⟨list, hlist, hread⟩ := Script.listLiteral?_assignment hword hindex rest
  obtain ⟨v, hv, hbalanced⟩ := Option.bind_eq_some_iff.1 hlist
  refine ⟨v, ?_, ?_⟩
  · simp only [listed?, hbalanced, hread, Option.bind_some, hrefs]
  · have hown : Script.FindsIn some "NAVTREEINDEX".toList [] (Script.findAssigned "NAVTREEINDEX".toList some false
        (assignment "NAVTREEINDEX".toList index ++ rest)) (some v) := by
      rw [hv]
      exact Script.findsIn_nil _
    exact hown.behind_list hword (by rfl) tree _

theorem findsIn_on (tree index off : List Char) (hon : MessageText m₁ on) :
    Script.FindsIn Script.quoted? "SYNCONMSG".toList [(tree, behindTree index on off), (index, behindIndex on off)]
      (Script.message? "SYNCONMSG".toList (script tree index on off)) (some m₁) := by
  have hword : ∀ c ∈ "SYNCONMSG".toList, CharClass.isWord c = true := List.all_eq_true.1 (by rfl)
  have hown : Script.FindsIn Script.quoted? "SYNCONMSG".toList [] (Script.findAssigned "SYNCONMSG".toList
      Script.quoted? false (assignment "SYNCONMSG".toList on ++ ' ' :: assignment "SYNCOFFMSG".toList off))
      (some m₁) := by
    rw [← Script.message?, Script.message?_assignment hword hon]
    exact Script.findsIn_nil _
  exact (hown.behind_assignment hword (by rfl) index _).behind_list hword (by rfl) tree _

theorem findsIn_off (tree index on : List Char) (hoff : MessageText m₂ off) :
    Script.FindsIn Script.quoted? "SYNCOFFMSG".toList
      [(tree, behindTree index on off), (index, behindIndex on off), (on, behindOn off)]
      (Script.message? "SYNCOFFMSG".toList (script tree index on off)) (some m₂) := by
  have hword : ∀ c ∈ "SYNCOFFMSG".toList, CharClass.isWord c = true := List.all_eq_true.1 (by rfl)
  have hown : Script.FindsIn Script.quoted? "SYNCOFFMSG".toList [] (Script.findAssigned "SYNCOFFMSG".toList
      Script.quoted? false (assignment "SYNCOFFMSG".toList off)) (some m₂) := by
    have hfound := Script.message?_assignment hword hoff []
    rw [List.append_nil] at hfound
    rw [← Script.message?, hfound]
    exact Script.findsIn_nil _
  exact ((hown.behind_assignment hword (by rfl) on _).behind_assignment hword (by rfl) index _).behind_list hword
    (by rfl) tree _

end

/-- The script and the object of the same data give the same data or fail alike, exactly if the tree is refused or
nothing else is read for a name that is assigned behind a literal than what is assigned to it: the first assignment to
the name that starts in a literal in front of it, if there is any, has a list with the same deep links, and the first of
a message, the same message. An assignment of anything but a quoted text to the name of a message does no harm. -/
theorem readScript_eq_readJson {tree index on off text m₁ m₂ : List Char} {t : Json} {js : List Json}
    {refs : List String} (htree : Json.Text t tree) (hindex : Json.Text (.array js) index)
    (hrefs : Json.asTexts? (.array js) = some refs) (hon : MessageText m₁ on) (hoff : MessageText m₂ off)
    (htext : Json.Text (object t (.array js) m₁ m₂) text) :
    readScript (script tree index on off) = readJson text ↔
      (∃ e, rootOf t = .error e) ∨
        (∀ v, Script.Taken some "NAVTREEINDEX".toList [(tree, behindTree index on off)] v → listed? v = some refs) ∧
        (∀ m, Script.Taken Script.quoted? "SYNCONMSG".toList
          [(tree, behindTree index on off), (index, behindIndex on off)] m → m = m₁) ∧
        ∀ m, Script.Taken Script.quoted? "SYNCOFFMSG".toList
          [(tree, behindTree index on off), (index, behindIndex on off), (on, behindOn off)] m → m = m₂ := by
  have htreeText : Json.Text (.array [t]) ('[' :: (tree ++ [']'])) := (Json.ValueText.array (.one htree)).text
  have htreeWord : ∀ c ∈ "NAVTREE".toList, CharClass.isWord c = true := List.all_eq_true.1 (by rfl)
  obtain ⟨treeText, htreeFound, htreeRead⟩ := Script.listLiteral?_assignment htreeWord htreeText
    (' ' :: (assignment "NAVTREEINDEX".toList index ++ ' ' ::
      (assignment "SYNCONMSG".toList on ++ ' ' :: assignment "SYNCOFFMSG".toList off)))
  obtain ⟨own, hown, hfinds⟩ := findsIn_index tree on off hindex hrefs
  rw [← hfinds.holds_iff hown, ← (findsIn_on tree index off hon).eq_iff, ← (findsIn_off tree index on hoff).eq_iff]
  obtain ⟨v, hv, -⟩ := (hfinds.holds_iff (P := fun _ => True) trivial).2 fun _ _ => trivial
  have hscript := readScript_of_found (s := script tree index on off) htreeFound htreeRead hv
  rw [readJson_of_read (Json.read?_eq_some_iff.2 htext) hrefs, hscript]
  cases rootOf t with
  | error e => exact iff_of_true rfl (.inl ⟨e, rfl⟩)
  | ok root =>
    rw [or_iff_right (by simp)]
    simp only [hv, Option.some.injEq, exists_eq_left']
    exact found_eq_iff

/-- Labels and messages may hold quotes, brackets and code. -/
theorem script_with_code_in_its_texts :
    readScript (script "[\"var NAVTREE = ['\",null,[[\"\\\"]\",\"a.html\",null]]]".toList " [\"a.html\"] ".toList
        (Script.quote '\x27' "it's on".toList) (Script.quote '"' "\\\"".toList)) =
      readJson ("\x7b\"tree\":[\"var NAVTREE = ['\",null,[[\"\\\"]\",\"a.html\",null]]]," ++
        "\"index\":[\"a.html\"],\"sync_on_message\":\"it's on\",\"sync_off_message\":\"\\\\\\\"\"\x7d").toList ∧
    readScript (script "[\"var NAVTREE = ['\",null,[[\"\\\"]\",\"a.html\",null]]]".toList " [\"a.html\"] ".toList
        (Script.quote '\x27' "it's on".toList) (Script.quote '"' "\\\"".toList)) = .ok
      { root := .inline "var NAVTREE = ['" none [.leaf "\"]" (some ⟨"a.html"⟩)]
        bootstrap := [⟨"a.html"⟩]
        whileLinked := some "it's on"
        whileUnlinked := some "\\\"" } := by
  have htree : Json.read? "[\"var NAVTREE = ['\",null,[[\"\\\"]\",\"a.html\",null]]]".toList =
      some (.array [.string (some "var NAVTREE = ['"), .null,
        .array [.array [.string (some "\"]"), .string (some "a.html"), .null]]]) := by cbv
  have hindex : Json.read? " [\"a.html\"] ".toList = some (.array [.string (some "a.html")]) := by cbv
  have hon : MessageText "it's on".toList (Script.quote '\x27' "it's on".toList) :=
    Script.messageText_quote (by decide) _
  have hoff : MessageText "\\\"".toList (Script.quote '"' "\\\"".toList) := Script.messageText_quote (by decide) _
  have htext : Json.read? ("\x7b\"tree\":[\"var NAVTREE = ['\",null,[[\"\\\"]\",\"a.html\",null]]]," ++
      "\"index\":[\"a.html\"],\"sync_on_message\":\"it's on\",\"sync_off_message\":\"\\\\\\\"\"\x7d").toList =
      some (object (.array [.string (some "var NAVTREE = ['"), .null,
        .array [.array [.string (some "\"]"), .string (some "a.html"), .null]]])
        (.array [.string (some "a.html")]) "it's on".toList "\\\"".toList) := by cbv
  refine ⟨?_, by decide +kernel⟩
  -- No literal mentions a name that is assigned behind it.
  have hsilent : ∀ {name s c t}, Script.Stops c → c ≠ '=' → Script.findAssigned name some false s = none →
      ¬ Mentions name false s ∧ ∃ d u, c :: t = d :: u ∧ Script.Stops d ∧ d ≠ '=' :=
    fun hc hne h => ⟨Script.not_mentions_of_findAssigned h, _, _, rfl, hc, hne⟩
  have hbracket : Script.Stops ']' := ⟨by rfl, by rfl⟩
  have hsemicolon : Script.Stops ';' := ⟨by rfl, by rfl⟩
  refine (readScript_eq_readJson (Json.read?_eq_some_iff.1 htree) (Json.read?_eq_some_iff.1 hindex) (by rfl) hon hoff
    (Json.read?_eq_some_iff.1 htext)).2 (.inr ⟨?_, ?_, ?_⟩)
  · refine fun v hv => absurd hv (Script.not_taken_of_silent (List.all_eq_true.1 (by rfl)) ?_)
    simp only [List.forall_mem_cons]
    exact ⟨hsilent hbracket (by decide) (by decide +kernel), by simp⟩
  · refine fun m hm => absurd hm (Script.not_taken_of_silent (List.all_eq_true.1 (by rfl)) ?_)
    simp only [List.forall_mem_cons]
    exact ⟨hsilent hbracket (by decide) (by decide +kernel), hsilent hsemicolon (by decide) (by decide +kernel), by simp⟩
  · refine fun m hm => absurd hm (Script.not_taken_of_silent (List.all_eq_true.1 (by rfl)) ?_)
    simp only [List.forall_mem_cons]
    exact ⟨hsilent hbracket (by decide) (by decide +kernel), hsilent hsemicolon (by decide) (by decide +kernel),
      hsilent hsemicolon (by decide) (by decide +kernel), by simp⟩

/-- An assignment in a label is taken for the one behind it. -/
theorem label_taken_for_the_index :
    (readScript (script "[\"var NAVTREEINDEX = [];\",\"index.html\",null]".toList "[\"a.html\"]".toList
        (Script.quote '\x27' "on".toList) (Script.quote '\x27' "off".toList))).map bootstrap = .ok [] ∧
    (readJson ("\x7b\"tree\":[\"var NAVTREEINDEX = [];\",\"index.html\",null],\"index\":[\"a.html\"]," ++
        "\"sync_on_message\":\"on\",\"sync_off_message\":\"off\"\x7d").toList).map bootstrap =
      .ok [⟨"a.html"⟩] := by
  decide +kernel

end NavData
end DocNav
