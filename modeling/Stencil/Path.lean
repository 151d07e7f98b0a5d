import Stencil.Value.Lookup

/-!
# Paths

A path such as `user.name` or `items[0]["key"]` names a place inside a value. It
is split into segments, which are looked up one after the other.

* `Path.split`: the segments. Dots separate them; brackets hold a key, bare or
  quoted, with backslash escapes in a quoted one; brackets that hold none are
  passed over;
* `Path.resolve`: the value at a path, undefined if there is none. A map entry
  under the whole path comes first.
-/

namespace Stencil.Path

/-- The characters that end a plain segment. -/
def isMark (c : Char) : Bool := c == '.' || c == '[' || c == ']'

/-- The text starts with a pair of brackets around nothing. -/
def startsEmptyBrackets : List Char → Bool
  | '[' :: ']' :: _ => true
  | _ => false

/-- A segment ends here: at the end of the path, at a dot, or at empty brackets. -/
def endsSegment (rest : List Char) : Bool :=
  match rest with
  | [] => true
  | '.' :: _ => true
  | _ => startsEmptyBrackets rest

/-- Reads a quoted key after its opening quote, up to the closing quote and the
bracket after it. A backslash takes the next character as it is. -/
def quotedKey? (quote : Char) : List Char → Option (List Char × List Char)
  | [] => none
  | c :: rest =>
    if c = '\\' then
      match rest with
      | [] => none
      | d :: rest => (quotedKey? quote rest).map fun (key, after) => (d :: key, after)
    else if c = quote then
      match rest with
      | ']' :: after => some ([], after)
      | _ => none
    else (quotedKey? quote rest).map fun (key, after) => (c :: key, after)

/-- Cuts a text at its last closing bracket. -/
def cutAtLastClosing? : List Char → Option (List Char × List Char)
  | [] => none
  | c :: rest =>
    match cutAtLastClosing? rest with
    | some (key, after) => some (c :: key, after)
    | none => if c = ']' then some ([], rest) else none

/-- Reads a bare key after an opening bracket: at least one character, up to the last
closing bracket before the next opening one. -/
def bareKey? : List Char → Option (List Char × List Char)
  | [] => none
  | c :: rest =>
    (cutAtLastClosing? (rest.takeWhile (· != '['))).map fun (key, after) =>
      (c :: key, after ++ rest.dropWhile (· != '['))

/-- Reads a key after an opening bracket, and its closing bracket. -/
def key? (cs : List Char) : Option (List Char × List Char) :=
  match cs with
  | [] => none
  | c :: rest => if c = '"' || c = '\'' then quotedKey? c rest else bareKey? cs

/-! ## Every key takes up characters -/

theorem length_of_quotedKey? {quote : Char} {cs key after : List Char}
    (h : quotedKey? quote cs = some (key, after)) : after.length < cs.length := by
  fun_induction quotedKey? quote cs generalizing key after with
  | case1 | case2 | case5 => simp at h
  | case3 d rest ih =>
    obtain ⟨⟨k, a⟩, hk, he⟩ := Option.map_eq_some_iff.1 h
    have := ih hk
    grind
  | case4 => grind
  | case6 c rest _ _ ih =>
    obtain ⟨⟨k, a⟩, hk, he⟩ := Option.map_eq_some_iff.1 h
    have := ih hk
    grind

theorem length_of_cutAtLastClosing? {cs key after : List Char}
    (h : cutAtLastClosing? cs = some (key, after)) : after.length < cs.length := by
  fun_induction cutAtLastClosing? cs generalizing key after <;> grind

theorem length_of_bareKey? {cs key after : List Char} (h : bareKey? cs = some (key, after)) :
    after.length < cs.length := by
  cases cs with
  | nil => simp [bareKey?] at h
  | cons c rest =>
    obtain ⟨⟨k, a⟩, hk, he⟩ := Option.map_eq_some_iff.1 h
    have hlen := length_of_cutAtLastClosing? hk
    have hsum := congrArg List.length (List.takeWhile_append_dropWhile (p := (· != '[')) (l := rest))
    simp only [List.length_append, Prod.mk.injEq] at hsum he
    rw [← he.2, List.length_append, List.length_cons]
    omega

theorem length_of_key? {cs key after : List Char} (h : key? cs = some (key, after)) :
    after.length < cs.length := by
  cases cs with
  | nil => simp [key?] at h
  | cons c rest =>
    simp only [key?] at h
    split at h
    · have := length_of_quotedKey? h
      simp only [List.length_cons]
      omega
    · exact length_of_bareKey? h

/-! ## Segments -/

/-- The segments after the start of a path. A dot makes an empty segment where one
ends at once, and so do empty brackets; other brackets without a key are passed over. -/
def segments (cs : List Char) : List (List Char) :=
  match cs with
  | [] => []
  | '.' :: rest => if endsSegment rest then [] :: segments rest else segments rest
  | ']' :: rest => segments rest
  | '[' :: rest =>
    match h : key? rest with
    | some (key, after) =>
      have := length_of_key? h
      key :: segments after
    | none =>
      let emptyKey := match rest with
        | ']' :: after => endsSegment after
        | _ => false
      if emptyKey then [] :: segments rest else segments rest
  | c :: rest =>
    have := (List.dropWhile_suffix (p := fun c => !isMark c) (l := rest)).length_le
    (c :: rest.takeWhile fun c => !isMark c) :: segments (rest.dropWhile fun c => !isMark c)
termination_by cs.length

/-- The segments of a path; a leading dot makes an empty one. -/
def split (path : String) : List String :=
  let cs := path.toList
  let first := match cs with
    | '.' :: _ => [[]]
    | _ => []
  (first ++ segments cs).map String.ofList

/-! ## Resolution -/

/-- The path has more than one segment or brackets: it holds a dot or an opening bracket. -/
def isDeep (path : String) : Bool := path.toList.any fun c => c == '.' || c == '['

/-- Looks up segments one after the other and stops at a value that holds nothing. -/
def walk (v : Value) : List String → Value
  | [] => v
  | s :: rest => if v.isUndefined || v.isNone then .undefined else walk (v.attr s) rest

/-- The value at a path: the entry under the whole path, and otherwise what the
segments lead to. -/
def resolve (root : Value) (path : String) : Value :=
  match root.entries?.bind (Entries.get? · path) with
  | some v => v
  | none =>
    if isDeep path then
      match split path with
      | [] => .undefined
      | first :: rest => walk (root.attr first) rest
    else root.attr path

end Stencil.Path
