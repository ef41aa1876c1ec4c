import DocNav.NavData
import DocNav.Proofs.JsonWriting
import DocNav.Proofs.Lookups
import DocNav.Proofs.References
/-!
# Navigation data written and read again

The object form of the data as a relation: which records stand for a node (`Node.WrittenAs`) and which fields for the
data (`NavData.WrittenAs`), apart from any reader. A key stands for a handle in two ways, and fields stand in any order
and may be left out where they would say nothing. Reading gives back what was written, from every text of every such
form, unless more brackets are open at once than a reader takes. Main result: `readJson_of_written`.
-/

namespace DocNav

namespace Json

def ofText (s : String) : Json := .string (some s)

/-- `null` where there is no text. -/
def ofOptional : Option String → Json
  | none => .null
  | some s => ofText s

@[simp] theorem asText?_ofText (s : String) : (ofText s).asText? = some s := rfl

@[simp] theorem asOptionalText?_ofOptional (s : Option String) : (ofOptional s).asOptionalText? = some s := by
  cases s <;> rfl

@[simp] theorem depth_ofText (s : String) : (ofText s).depth = 0 := rfl

@[simp] theorem depth_ofOptional (s : Option String) : (ofOptional s).depth = 0 := by
  cases s <;> rfl

def ofTexts (texts : List String) : Json := .array (texts.map ofText)

@[simp] theorem asTexts?_ofTexts (texts : List String) : (ofTexts texts).asTexts? = some texts := by
  simp only [ofTexts, asTexts?]
  induction texts with
  | nil => rfl
  | cons s texts ih => simp [List.mapM_cons, ih]

theorem depth_ofTexts (texts : List String) : (ofTexts texts).depth ≤ 1 := by
  rw [ofTexts, depth, Nat.add_le_add_iff_right, depthAll_le_iff]
  simp

theorem asFields?_named (fields : List (String × Json)) : (named fields).asFields? = some fields := by
  simp only [named, asFields?]
  induction fields with
  | nil => rfl
  | cons f fields ih => simp [List.mapM_cons, ih]

/-- A field that is there once is found, and one that is not there is missing. -/
theorem fieldOnce?_of_nodup {fields : List (String × Json)} (hnodup : (fields.map Prod.fst).Nodup) (name : String) :
    fieldOnce? fields name = some (fields.lookup name) := by
  induction fields with
  | nil => rfl
  | cons f fields ih =>
    obtain ⟨m, j⟩ := f
    rw [List.map_cons, List.nodup_cons] at hnodup
    by_cases hname : m = name
    · have hnone : fields.filter (·.1 = name) = [] := by
        rw [List.filter_eq_nil_iff]
        intro f hf hfname
        refine hnodup.1 (List.mem_map.2 ⟨f, hf, ?_⟩)
        exact (of_decide_eq_true hfname).trans hname.symm
      simp [fieldOnce?, hname, hnone]
    · have hne : (name == m) = false := beq_eq_false_iff_ne.2 (Ne.symm hname)
      rw [List.lookup_cons, hne, ← ih hnodup.2]
      simp [fieldOnce?, hname]

end Json

@[simp] theorem PageRef.mk_comp_text : PageRef.mk ∘ PageRef.text = id := rfl

/-! ## Nodes -/

mutual
/-- The record that stands for a node. The key of a deferred node is that of its handle, or empty where the handle is the
one that its link gives. -/
inductive Node.WrittenAs : Node → Json → Prop
  | leaf {label : String} {link : Option PageRef} :
      WrittenAs (.leaf label link) (.array [.ofText label, .ofOptional (link.map PageRef.text), .null])
  | inline {label : String} {link : Option PageRef} {children : List Node} {items : List Json} :
      Node.AllWrittenAs children items →
      WrittenAs (.inline label link children)
        (.array [.ofText label, .ofOptional (link.map PageRef.text), .array items])
  | keyed {label : String} {link : PageRef} {handle : Handle} :
      handle.key ≠ "" →
      WrittenAs (.deferred label link handle) (.array [.ofText label, .ofText link.text, .ofText handle.key])
  | derived {label : String} {link : PageRef} {handle : Handle} :
      handle.DerivedFrom link →
      WrittenAs (.deferred label link handle) (.array [.ofText label, .ofText link.text, .ofText ""])

inductive Node.AllWrittenAs : List Node → List Json → Prop
  | nil : AllWrittenAs [] []
  | cons {n : Node} {ns : List Node} {j : Json} {js : List Json} :
      Node.WrittenAs n j → AllWrittenAs ns js → AllWrittenAs (n :: ns) (j :: js)
end

namespace Node

mutual
/-- A record is read where its brackets fit, and gives the node that was written. -/
theorem WrittenAs.read {n : Node} {j : Json} : n.WrittenAs j →
    ∃ r, (∀ room, Record.ofJson? room j = if j.depth ≤ room then some r else none) ∧
      ∀ path, Record.toNode path r = .ok n
  | @WrittenAs.leaf label link => by
    refine ⟨.leaf label (link.map PageRef.text), fun room => ?_, fun path => by simp [Record.toNode]⟩
    cases room <;> simp [Record.ofJson?, Json.depth, Json.depthAll]
  | @WrittenAs.inline label link _ _ h => by
    obtain ⟨rs, hread, hnodes⟩ := h.read
    refine ⟨.group label (link.map PageRef.text) rs, fun room => ?_, fun path => by simp [Record.toNode, hnodes]⟩
    match room with
    | 0 | 1 => simp [Record.ofJson?, Json.depth, Json.depthAll]
    | room + 2 =>
      simp [Record.ofJson?, Json.depth, Json.depthAll, hread]
  | @WrittenAs.keyed label link handle hkey => by
    refine ⟨.keyed label (some link.text) handle.key, fun room => ?_, fun path => by simp [Record.toNode, hkey]⟩
    cases room <;> simp [Record.ofJson?, Json.depth, Json.depthAll, Json.ofText, Json.asText?, Json.asOptionalText?]
  | @WrittenAs.derived label link _ hderived => by
    obtain rfl := Handle.derivedFrom_iff.1 hderived
    refine ⟨.keyed label (some link.text) "", fun room => ?_, fun path => by simp [Record.toNode]⟩
    cases room <;> simp [Record.ofJson?, Json.depth, Json.depthAll, Json.ofText, Json.asText?, Json.asOptionalText?]

theorem AllWrittenAs.read {ns : List Node} {js : List Json} : AllWrittenAs ns js →
    ∃ rs, (∀ room, Record.listOfJson? room js = if Json.depthAll js ≤ room then some rs else none) ∧
      ∀ path index, Record.toNodes path index rs = .ok ns
  | .nil => ⟨[], by simp [Record.listOfJson?, Json.depthAll], fun _ _ => rfl⟩
  | @AllWrittenAs.cons _ _ j js h hs => by
    obtain ⟨r, hread, hnode⟩ := h.read
    obtain ⟨rs, hreads, hnodes⟩ := hs.read
    refine ⟨r :: rs, fun room => ?_, fun path index => by simp [Record.toNodes, hnode, hnodes]⟩
    rw [Record.listOfJson?, hread, hreads, Json.depthAll]
    by_cases hj : j.depth ≤ room <;> by_cases hjs : Json.depthAll js ≤ room <;> simp [hj, hjs]
end

end Node

/-! ## Anchor tables -/

namespace AnchorTable

/-- A table that insertions have made. -/
inductive Built : AnchorTable → Prop
  | empty : Built {}
  | insert {t t' : AnchorTable} {anchor : PageRef} {chain : Chain} :
      Built t → t.insert anchor chain = .ok t' → Built t'

theorem insertAll_append (t : AnchorTable) (xs ys : List (PageRef × Chain)) :
    t.insertAll (xs ++ ys) = (t.insertAll xs).bind (·.insertAll ys) := by
  induction xs generalizing t with
  | nil => rfl
  | cons x xs ih =>
    rw [List.cons_append, insertAll, insertAll]
    cases t.insert x.1 x.2 with
    | error e => rfl
    | ok t' => exact ih t'

/-- Inserting the entries of a table makes the table. -/
theorem Built.insertAll {t : AnchorTable} (h : t.Built) : AnchorTable.insertAll {} t.entries = .ok t := by
  induction h with
  | empty => rfl
  | @insert t t' anchor chain _ hinsert ih =>
    have hentries : t'.entries = t.entries ++ [(anchor, chain)] := by
      unfold AnchorTable.insert at hinsert
      split at hinsert
      · cases hinsert
      · split at hinsert
        · cases hinsert
          rfl
        · cases hinsert
    rw [hentries, insertAll_append, ih]
    simp [Except.bind, AnchorTable.insertAll, hinsert]

/-- A table as an object, with its entries in order and repeats included. -/
def toJson (t : AnchorTable) : Json := Json.named (t.entries.map fun e => (e.1.text, .ofTexts (e.2.map PageRef.text)))

theorem anchorsOfJson?_toJson (t : AnchorTable) : anchorsOfJson? t.toJson = some t.entries := by
  simp only [anchorsOfJson?, toJson, Json.asFields?_named, Option.bind_eq_bind, Option.bind_some]
  induction t.entries with
  | nil => rfl
  | cons e entries ih =>
    rw [List.map_cons, List.mapM_cons, ih]
    simp

theorem depth_toJson (t : AnchorTable) : t.toJson.depth ≤ 2 := by
  rw [toJson, Json.named, Json.depth, Nat.add_le_add_iff_right, Json.depthFields_le_iff]
  simp only [List.mem_map, forall_exists_index, and_imp]
  rintro _ _ e - rfl rfl
  exact Json.depth_ofTexts _

end AnchorTable

/-! ## The data -/

namespace NavData

open Json (named)

/-- The field of this name has the value; it may also be missing, where there is nothing to say. -/
def FieldSays (fields : List (String × Json)) (name : String) (value : Json) (nothing : Prop) : Prop :=
  fields.lookup name = some value ∨ fields.lookup name = none ∧ nothing

/-- The fields that stand for the data, in any order. -/
structure WrittenAs (d : NavData) (fields : List (String × Json)) : Prop where
  once : (fields.map Prod.fst).Nodup
  known : ∀ f ∈ fields, f.1 ∈ fieldNames
  tree : ∃ j, fields.lookup "tree" = some j ∧ d.root.WrittenAs j
  index : FieldSays fields "index" (.ofTexts (d.bootstrap.map PageRef.text)) (d.bootstrap = [])
  anchors : FieldSays fields "anchors" d.anchors.toJson (d.anchors.entries = [])
  whileLinked : FieldSays fields "sync_on_message" (.ofOptional d.whileLinked) (d.whileLinked = none)
  whileUnlinked : FieldSays fields "sync_off_message" (.ofOptional d.whileUnlinked) (d.whileUnlinked = none)

variable {d : NavData} {fields : List (String × Json)}

theorem FieldSays.eq {name : String} {value j : Json} {nothing : Prop} (h : FieldSays fields name value nothing)
    (hj : fields.lookup name = some j) : j = value := by
  rcases h with h | ⟨h, -⟩
  · exact Option.some.inj (hj.symm.trans h)
  · cases hj.symm.trans h

/-- What a reader of a field makes of it, where it makes the same of a missing one. -/
theorem FieldSays.read {α : Type} {name : String} {value : Json} {nothing : Prop} {reader : Json → Option α}
    {default a : α} (h : FieldSays fields name value nothing) (hread : reader value = some a)
    (hdefault : nothing → a = default) : ((fields.lookup name).map reader).getD (some default) = some a := by
  rcases h with h | ⟨h, hnothing⟩
  · simp [h, hread]
  · simp [h, hdefault hnothing]

/-- Only the tree is deep. -/
theorem WrittenAs.depth_le_iff (h : d.WrittenAs fields) {tree : Json} (htree : fields.lookup "tree" = some tree) :
    (named fields).depth ≤ bracketLimit ↔ tree.depth ≤ bracketLimit - 1 := by
  have hfields : (named fields).depth ≤ bracketLimit ↔ ∀ f ∈ fields, f.2.depth ≤ bracketLimit - 1 := by
    rw [named, Json.depth, Nat.add_one_le_iff, Nat.lt_iff_le_pred (by decide), Json.depthFields_le_iff]
    simp only [List.forall_mem_map]
  rw [hfields]
  constructor
  · intro hall
    exact hall ("tree", tree) ((lookup_eq_some_iff_mem h.once).1 htree)
  · rintro htreeDepth ⟨name, j⟩ hf
    have hlookup := (lookup_eq_some_iff_mem h.once).2 hf
    have hname : name ∈ fieldNames := h.known _ hf
    simp only [fieldNames, List.mem_cons, List.not_mem_nil, or_false] at hname
    rcases hname with rfl | rfl | rfl | rfl | rfl
    · obtain rfl : tree = j := Option.some.inj (htree.symm.trans hlookup)
      exact htreeDepth
    · rw [h.index.eq hlookup]
      exact (Json.depth_ofTexts _).trans (by decide)
    · rw [h.anchors.eq hlookup]
      exact (AnchorTable.depth_toJson _).trans (by decide)
    · simp [h.whileLinked.eq hlookup]
    · simp [h.whileUnlinked.eq hlookup]

/-- The fields are read, if the brackets of the tree fit, into the parts of the data. -/
theorem WrittenAs.read (h : d.WrittenAs fields) :
    ∃ r, (fieldsOfJson? (named fields) = if (named fields).depth ≤ bracketLimit then
        some ⟨r, d.bootstrap.map PageRef.text, d.anchors.entries, d.whileLinked, d.whileUnlinked⟩ else none) ∧
      ∀ path, Record.toNode path r = .ok d.root := by
  obtain ⟨tree, htree, hwritten⟩ := h.tree
  obtain ⟨r, hread, hnode⟩ := hwritten.read
  refine ⟨r, ?_, hnode⟩
  have hrecord : (named fields).asRecord? fieldNames =
      some [fields.lookup "tree", fields.lookup "index", fields.lookup "anchors", fields.lookup "sync_on_message",
        fields.lookup "sync_off_message"] := by
    have hfields := Json.asFields?_named fields
    rw [named] at hfields ⊢
    simp [Json.asRecord?, hfields, fieldNames, Json.fieldOnce?_of_nodup h.once]
  have hindex : ((fields.lookup "index").map Json.asTexts?).getD (some []) = some (d.bootstrap.map PageRef.text) :=
    h.index.read (Json.asTexts?_ofTexts _) (by simp)
  have hanchors : ((fields.lookup "anchors").map anchorsOfJson?).getD (some []) = some d.anchors.entries :=
    h.anchors.read (AnchorTable.anchorsOfJson?_toJson _) id
  have hon : ((fields.lookup "sync_on_message").map Json.asOptionalText?).getD (some none) = some d.whileLinked :=
    h.whileLinked.read (Json.asOptionalText?_ofOptional _) id
  have hoff : ((fields.lookup "sync_off_message").map Json.asOptionalText?).getD (some none) = some d.whileUnlinked :=
    h.whileUnlinked.read (Json.asOptionalText?_ofOptional _) id
  have hdepth := h.depth_le_iff htree
  simp only [fieldsOfJson?, hrecord, htree, Option.bind_eq_bind, Option.bind_some, hread, hindex, hanchors, hon, hoff]
  by_cases htreeDepth : tree.depth ≤ bracketLimit - 1
  · rw [if_pos htreeDepth, if_pos (hdepth.2 htreeDepth)]
    rfl
  · rw [if_neg htreeDepth, if_neg (mt hdepth.1 htreeDepth)]
    rfl

end NavData

/-! ## Writing -/

namespace Json

def textOfOptional : Option String → List Char
  | none => "null".toList
  | some s => quoted s

def textOfTexts (texts : List String) : List Char := bracketed (texts.map quoted)

theorem valueText_ofText (s : String) : ValueText (ofText s) (quoted s) := .string (quoted_text s)

theorem valueText_ofOptional (s : Option String) : ValueText (ofOptional s) (textOfOptional s) := by
  cases s with
  | none => exact .null
  | some s => exact valueText_ofText s

theorem valueText_ofTexts (texts : List String) : ValueText (ofTexts texts) (textOfTexts texts) := by
  refine valueText_array ?_
  induction texts with
  | nil => exact .nil
  | cons s texts ih => exact .cons (valueText_ofText s) ih

end Json

namespace Node

open Json (bracketed quoted textOfOptional ValueText valueText_array valueText_ofText valueText_ofOptional)

mutual
/-- Whether each deferred node has a handle that can be written: one with a key, or the one that its link gives. -/
def Keyed : Node → Prop
  | leaf _ _ => True
  | inline _ _ children => AllKeyed children
  | deferred _ link handle => handle.key ≠ "" ∨ handle.DerivedFrom link

def AllKeyed : List Node → Prop
  | [] => True
  | n :: ns => Keyed n ∧ AllKeyed ns
end

mutual
def toJson : Node → Json
  | leaf label link => .array [.ofText label, .ofOptional (link.map PageRef.text), .null]
  | inline label link children =>
    .array [.ofText label, .ofOptional (link.map PageRef.text), .array (allToJson children)]
  | deferred label link handle => .array [.ofText label, .ofText link.text, .ofText handle.key]

def allToJson : List Node → List Json
  | [] => []
  | n :: ns => toJson n :: allToJson ns
end

mutual
/-- A node as a record, written without blanks. -/
def write : Node → List Char
  | leaf label link => bracketed [quoted label, textOfOptional (link.map PageRef.text), "null".toList]
  | inline label link children =>
    bracketed [quoted label, textOfOptional (link.map PageRef.text), bracketed (writeAll children)]
  | deferred label link handle => bracketed [quoted label, quoted link.text, quoted handle.key]

def writeAll : List Node → List (List Char)
  | [] => []
  | n :: ns => write n :: writeAll ns
end

mutual
theorem Keyed.written {n : Node} (h : n.Keyed) : n.WrittenAs n.toJson := by
  cases n with
  | leaf label link => exact .leaf
  | inline label link children => exact .inline (AllKeyed.written h)
  | deferred label link handle =>
    by_cases hkey : handle.key = ""
    · have hderived : handle.DerivedFrom link := h.resolve_left fun h => h hkey
      rw [toJson, hkey]
      exact .derived hderived
    · exact .keyed hkey

theorem AllKeyed.written {ns : List Node} (h : AllKeyed ns) : AllWrittenAs ns (allToJson ns) := by
  cases ns with
  | nil => exact .nil
  | cons n ns => exact .cons h.1.written h.2.written
end

theorem valueText_record {label link children : Json} {s t u : List Char} (hlabel : ValueText label s)
    (hlink : ValueText link t) (hchildren : ValueText children u) :
    ValueText (.array [label, link, children]) (bracketed [s, t, u]) :=
  valueText_array (.cons hlabel (.cons hlink (.cons hchildren .nil)))

mutual
theorem valueText_write : (n : Node) → ValueText n.toJson n.write
  | leaf label _ => valueText_record (valueText_ofText label) (valueText_ofOptional _) .null
  | inline label _ children =>
    valueText_record (valueText_ofText label) (valueText_ofOptional _) (valueText_array (valueText_writeAll children))
  | deferred label _ _ => valueText_record (valueText_ofText label) (valueText_ofText _) (valueText_ofText _)

theorem valueText_writeAll : (ns : List Node) → List.Forall₂ ValueText (allToJson ns) (writeAll ns)
  | [] => .nil
  | n :: ns => .cons (valueText_write n) (valueText_writeAll ns)
end

end Node

namespace AnchorTable

def write (t : AnchorTable) : List Char :=
  Json.braced (t.entries.map fun e => (e.1.text, Json.textOfTexts (e.2.map PageRef.text)))

theorem valueText_write (t : AnchorTable) : Json.ValueText t.toJson t.write := by
  refine Json.valueText_object ?_
  induction t.entries with
  | nil => exact .nil
  | cons e entries ih => exact .cons ⟨rfl, Json.valueText_ofTexts _⟩ ih

end AnchorTable

namespace NavData

open Json (named)

/-- All the fields of the data, in the order of their documentation. -/
def toFields (d : NavData) : List (String × Json) :=
  [("tree", d.root.toJson), ("index", .ofTexts (d.bootstrap.map PageRef.text)), ("anchors", d.anchors.toJson),
    ("sync_on_message", .ofOptional d.whileLinked), ("sync_off_message", .ofOptional d.whileUnlinked)]

/-- The data as an object, written without blanks. -/
def write (d : NavData) : List Char :=
  Json.braced
    [("tree", d.root.write), ("index", Json.textOfTexts (d.bootstrap.map PageRef.text)), ("anchors", d.anchors.write),
      ("sync_on_message", Json.textOfOptional d.whileLinked),
      ("sync_off_message", Json.textOfOptional d.whileUnlinked)]

theorem written_toFields (d : NavData) (hkeyed : d.root.Keyed) : d.WrittenAs d.toFields where
  once := by
    rw [show d.toFields.map Prod.fst = fieldNames from rfl]
    decide
  known f hf := by
    rw [show fieldNames = d.toFields.map Prod.fst from rfl]
    exact List.mem_map_of_mem hf
  tree := ⟨_, rfl, hkeyed.written⟩
  index := .inl rfl
  anchors := .inl rfl
  whileLinked := .inl rfl
  whileUnlinked := .inl rfl

theorem text_write (d : NavData) : Json.Text (named d.toFields) d.write := by
  refine (Json.valueText_object ?_).text
  exact .cons ⟨rfl, d.root.valueText_write⟩ (.cons ⟨rfl, Json.valueText_ofTexts _⟩
    (.cons ⟨rfl, d.anchors.valueText_write⟩ (.cons ⟨rfl, Json.valueText_ofOptional _⟩
      (.cons ⟨rfl, Json.valueText_ofOptional _⟩ .nil))))

theorem readJson_of_text {d : NavData} {fields : List (String × Json)} {s : List Char} (hbuilt : d.anchors.Built)
    (h : d.WrittenAs fields) (hs : Json.Text (named fields) s) :
    readJson s = if (named fields).depth ≤ bracketLimit then .ok d else .error .malformed := by
  obtain ⟨r, hread, hnode⟩ := h.read
  rw [readJson, Json.read?_eq_some_iff.2 hs, Option.bind_some, hread]
  split
  · simp [orMalformed, bind, Except.bind, hnode, Except.mapError, hbuilt.insertAll, pure, Except.pure]
  · rfl

/-- What is written is read again. For data whose handles can be written and whose table insertions have made, the text
that is written gives the data, and so does every text of every form that stands for the data; unless more brackets are
open at once than a reader takes, and then the text is refused. -/
theorem readJson_of_written (d : NavData) (hkeyed : d.root.Keyed) (hbuilt : d.anchors.Built) :
    (readJson d.write = if (named d.toFields).depth ≤ bracketLimit then .ok d else .error .malformed) ∧
    ∀ fields s, d.WrittenAs fields → Json.Text (named fields) s →
      readJson s = if (named fields).depth ≤ bracketLimit then .ok d else .error .malformed :=
  ⟨readJson_of_text hbuilt (d.written_toFields hkeyed) d.text_write, fun _ _ => readJson_of_text hbuilt⟩

/-- Escapes, a handle with the empty key, and an anchor that is listed twice. In the second text the fields are in another
order, the list of deep links is left out, and a handle is left to its link. -/
theorem readJson_of_escaped :
    let d : NavData :=
      { root := .inline "\"A\"\n" (some ⟨"index.html"⟩)
          [.deferred "B" ⟨".html"⟩ ⟨""⟩, .deferred "C" ⟨"c.html#x"⟩ ⟨"c"⟩, .leaf "\\\u00e9" none]
        anchors := ⟨[(⟨"a"⟩, [⟨"a"⟩]), (⟨"a"⟩, [⟨"b"⟩, ⟨"a"⟩])]⟩
        whileUnlinked := some "" }
    d.root.Keyed ∧ d.anchors.Built ∧ readJson d.write = .ok d ∧
      readJson ("\x7b \"anchors\":\x7b\"a\":[\"a\"],\"\\u0061\":[\"b\",\"a\"]\x7d,\"sync_off_message\":\"\"," ++
        "\"tree\":[\"\\\"A\\u0022\\n\",\"index.html\",[[\"B\",\".html\",\"\"],[\"C\",\"c.html#x\",\"\"]," ++
        "[\"\\\\\\u00E9\",null,null]]]\x7d").toList =
        .ok d := by
  intro d
  have hkeyed : d.root.Keyed := by
    simp only [d, Node.Keyed, Node.AllKeyed]
    refine ⟨.inr ?_, .inl ?_, trivial, trivial⟩
    · exact Handle.derivedFrom_iff.2 rfl
    · decide
  have hbuilt : d.anchors.Built :=
    @AnchorTable.Built.insert ⟨[(⟨"a"⟩, [⟨"a"⟩])]⟩ _ ⟨"a"⟩ [⟨"b"⟩, ⟨"a"⟩]
      (@AnchorTable.Built.insert {} _ ⟨"a"⟩ [⟨"a"⟩] .empty (by decide)) (by decide)
  have htree : d.root.WrittenAs
      (.array [.ofText "\"A\"\n", .ofText "index.html", .array
        [.array [.ofText "B", .ofText ".html", .ofText ""], .array [.ofText "C", .ofText "c.html#x", .ofText ""],
          .array [.ofText "\\\u00e9", .null, .null]]]) :=
    .inline (.cons (.derived (Handle.derivedFrom_iff.2 rfl)) (.cons (.derived (Handle.derivedFrom_iff.2 rfl))
      (.cons .leaf .nil)))
  have hwritten : d.WrittenAs [("anchors", d.anchors.toJson), ("sync_off_message", .ofText ""), ("tree", _)] :=
    { once := by simp
      known := by simp [fieldNames]
      tree := ⟨_, rfl, htree⟩
      index := .inr ⟨rfl, rfl⟩
      anchors := .inl rfl
      whileLinked := .inr ⟨rfl, rfl⟩
      whileUnlinked := .inl rfl }
  obtain ⟨hwrite, hforms⟩ := readJson_of_written d hkeyed hbuilt
  refine ⟨hkeyed, hbuilt, ?_, ?_⟩
  · rw [hwrite, if_pos]
    decide
  · rw [hforms _ _ hwritten (Json.read?_eq_some_iff.1 ?_), if_pos]
    · decide
    · cbv

end NavData
end DocNav
