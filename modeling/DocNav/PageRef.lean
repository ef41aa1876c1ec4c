/-!
# Page references and fragment handles

A `PageRef` names a page of the documentation, or an anchor inside one: `files.html`, `a_8h.html#details`.
The text before the first `#` is its page and the text behind it its fragment; a page without `#` has none,
and `a.html#` has the empty one. A `Handle` is the key under which the children of a deferred node are kept.

Both are ordered by the bytes of their UTF-8 form, which is the order of their code points.
-/

namespace DocNav

structure PageRef where
  text : String
deriving DecidableEq, Repr, Inhabited

structure Handle where
  key : String
deriving DecidableEq, Repr, Inhabited

namespace PageRef

def page (r : PageRef) : String :=
  String.ofList (r.text.toList.takeWhile (· ≠ '#'))

def fragment? (r : PageRef) : Option String :=
  match r.text.toList.dropWhile (· ≠ '#') with
  | [] => none
  | _ :: rest => some (String.ofList rest)

def withoutFragment (r : PageRef) : PageRef := ⟨r.page⟩

def sort (refs : List PageRef) : List PageRef :=
  refs.mergeSort fun a b => decide (a.text ≤ b.text)

end PageRef

namespace Handle

/-- The key a node's fragment has when the data names none: the page of its link, without one
trailing `.html`. -/
def ofLink (link : PageRef) : Handle :=
  let page := link.page.toList
  let stem := page.length - 5
  if page.drop stem = ".html".toList then ⟨String.ofList (page.take stem)⟩ else ⟨link.page⟩

def sortDistinct (handles : List Handle) : List Handle :=
  (handles.mergeSort fun a b => decide (a.key ≤ b.key)).eraseReps

end Handle
end DocNav
