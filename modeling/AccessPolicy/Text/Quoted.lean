import AccessPolicy.Text.Seen

/-!
# Texts in quotes, for showing

A text is shown in quotes with everything that cannot be seen written as an escape, so that what is shown is one
line and tells the characters apart.
-/

namespace AccessPolicy.Text

/-- A character as it is shown inside quotes. -/
def shownChar (c : Char) : List Char :=
  match c with
  | '"' => ['\\', '"']
  | '\\' => ['\\', '\\']
  | '\n' => ['\\', 'n']
  | '\r' => ['\\', 'r']
  | '\t' => ['\\', 't']
  | '\x00' => ['\\', '0']
  | c =>
    if isSeen c then [c]
    else '\\' :: 'u' :: '\x7b' :: (Nat.toDigits 16 c.toNat ++ ['\x7d'])

/-- A text as it is shown. -/
def quoted (s : String) : String :=
  String.ofList ('"' :: (s.toList.flatMap shownChar ++ ['"']))

end AccessPolicy.Text
