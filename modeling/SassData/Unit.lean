import SassData.Text.Name

/-!
# Units

A number carries a list of unit tokens above the line and one below it. Units are written with a
star between tokens and one slash before those below; a number with tokens below alone is written
with a negative power, which is a form that is shown but not read. Cancelling takes from both
lists the tokens that stand in both, each as often as it does, and keeps the order of the rest.
-/

namespace SassData.Unit

set_option autoImplicit false

def isWord : List Char → Bool
  | ['%'] => true
  | c :: rest => Text.isNameStart c && rest.all Text.isNameChar
  | [] => false

/-- A word, after which one line break is put up with. -/
def isToken (token : List Char) : Bool :=
  isWord token || (token.getLast? == some '\n' && isWord token.dropLast)

def pieces (separator : Char) : List Char → List (List Char)
  | [] => [[]]
  | c :: rest =>
    match pieces separator rest with
    | [] => [[]]
    | first :: others => if c == separator then [] :: first :: others else (c :: first) :: others

/-- The pieces between stars that are not empty. -/
def tokens (text : List Char) : List (List Char) :=
  (pieces '*' text).filter (!·.isEmpty)

/-- What stands before the first slash and what stands behind it. -/
def halves (text : List Char) : List Char × List Char :=
  (text.takeWhile (· != '/'), (text.dropWhile (· != '/')).drop 1)

/-- The tokens above and below the line, if every one is a token. -/
def read? (text : String) : Option (List String × List String) :=
  let (above, below) := halves text.toList
  let above := tokens above
  let below := tokens below
  if (above ++ below).all isToken then
    some (above.map String.ofList, below.map String.ofList)
  else none

/-- What is left above and below the line after common tokens are taken away in pairs. -/
def cancel : List String → List String → List String × List String
  | [], below => ([], below)
  | unit :: rest, below =>
    if unit ∈ below then cancel rest (below.erase unit)
    else
      let (above, remaining) := cancel rest below
      (unit :: above, remaining)

theorem mem_of_mem_cancel_below {above below : List String} {token : String}
    (h : token ∈ (cancel above below).2) : token ∈ below := by
  induction above generalizing below with
  | nil => simpa [cancel] using h
  | cons unit rest ih =>
    unfold cancel at h
    split at h
    · exact List.mem_of_mem_erase (ih h)
    · exact ih h

theorem mem_of_mem_cancel_above {above below : List String} {token : String}
    (h : token ∈ (cancel above below).1) : token ∈ above := by
  induction above generalizing below with
  | nil => simp [cancel] at h
  | cons unit rest ih =>
    unfold cancel at h
    split at h
    · exact List.mem_cons_of_mem unit (ih h)
    · rcases List.mem_cons.mp h with rfl | h
      · exact List.mem_cons_self
      · exact List.mem_cons_of_mem unit (ih h)

theorem cancel_disjoint (above below : List String) :
    ∀ token ∈ (cancel above below).1, token ∉ (cancel above below).2 := by
  induction above generalizing below with
  | nil => simp [cancel]
  | cons unit rest ih =>
    unfold cancel
    split
    · exact ih _
    · next h =>
      intro token ht
      rcases List.mem_cons.mp ht with rfl | ht
      · exact fun hm => h (mem_of_mem_cancel_below hm)
      · exact ih below token ht

def text (above below : List String) : String :=
  match above, below with
  | above, [] => "*".intercalate above
  | [], [unit] => unit ++ "^-1"
  | [], below => "(" ++ "*".intercalate below ++ ")^-1"
  | above, below => "*".intercalate above ++ "/" ++ "*".intercalate below

def sameTokens (left right : List String) : Bool := left.isPerm right

end SassData.Unit
