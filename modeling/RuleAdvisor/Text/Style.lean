/-!
Terminal styles. A styled text is put between the codes that open and close its style; the style
is closed before every line end inside it and opened again behind it, and opened again wherever
the text itself closes it. Empty text stays empty.
-/

namespace RuleAdvisor.Text

structure Style where
  opening : Nat
  closing : Nat
  deriving DecidableEq

namespace Style

def bold : Style := ⟨1, 22⟩
def red : Style := ⟨31, 39⟩
def green : Style := ⟨32, 39⟩
def yellow : Style := ⟨33, 39⟩
def cyan : Style := ⟨36, 39⟩
def gray : Style := ⟨90, 39⟩

def sequence (code : Nat) : List Char := '\x1b' :: '[' :: (Nat.toDigits 10 code ++ ['m'])

def followWith (mark addition : List Char) : List Char → List Char
  | [] => []
  | c :: rest =>
      if mark.isPrefixOf (c :: rest) then
        mark ++ addition ++ followWith mark addition (rest.drop (mark.length - 1))
      else c :: followWith mark addition rest
termination_by text => text.length
decreasing_by all_goals simp; try omega

def interruptLines (closing opening : List Char) : List Char → List Char
  | '\r' :: '\n' :: rest =>
      closing ++ '\r' :: '\n' :: opening ++ interruptLines closing opening rest
  | '\n' :: rest => closing ++ '\n' :: opening ++ interruptLines closing opening rest
  | c :: rest => c :: interruptLines closing opening rest
  | [] => []

def paintChars (styles : List Style) (text : List Char) : List Char :=
  let opening := styles.flatMap fun style => sequence style.opening
  let closing := styles.reverse.flatMap fun style => sequence style.closing
  let reopened := styles.reverse.foldl
    (fun text style => followWith (sequence style.closing) (sequence style.opening) text) text
  if text.isEmpty then [] else opening ++ interruptLines closing opening reopened ++ closing

def paint (styles : List Style) (text : String) : String :=
  String.ofList (paintChars styles text.toList)

end Style
end RuleAdvisor.Text
