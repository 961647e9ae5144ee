import AccessPolicy.Decimal.Numeral

/-!
# Numbers in texts

A text that is to be compared as a number: an optional sign, then digits with an optional point anywhere among
them and an optional exponent, or a word for infinity or for no number, in upper or lower case. The text must be
nothing but the number. It is read as the nearest double.
-/

namespace AccessPolicy.Decimal

/-- An exponent that makes up the rest of a text, if there is any rest; `value` says what its digits write. -/
def exponentOrEnd? (value : List Nat → Nat) (cs : List Char) : Option Int :=
  match cs with
  | [] => some 0
  | e :: rest =>
    if e = 'e' ∨ e = 'E' then
      let (negative, digits) :=
        match rest with
        | '-' :: digits => (true, digits)
        | '+' :: digits => (false, digits)
        | digits => (false, digits)
      match takeDigits digits with
      | (d :: ds, []) =>
        let n : Int := value (d :: ds)
        some (if negative then -n else n)
      | _ => none
    else none

/-- The words that stand for a number. -/
def word? (cs : List Char) : Option Float :=
  match cs.map Char.toLower with
  | ['i', 'n', 'f'] | ['i', 'n', 'f', 'i', 'n', 'i', 't', 'y'] => some infinity
  | ['n', 'a', 'n'] => some notANumber
  | _ => none

/-- The number that a text is. -/
def number? (cs : List Char) : Option Float :=
  let (negative, unsigned) :=
    match cs with
    | '-' :: rest => (true, rest)
    | '+' :: rest => (false, rest)
    | cs => (false, cs)
  match word? unsigned with
  | some x => some (signed negative x)
  | none =>
    let (whole, rest) := takeDigits unsigned
    let (fraction, rest) :=
      match rest with
      | '.' :: rest => takeDigits rest
      | rest => ([], rest)
    if whole.isEmpty && fraction.isEmpty then none
    else (exponentOrEnd? ofExponentDigits rest).map fun exponent => Numeral.nearest ⟨negative, whole, fraction, exponent⟩

end AccessPolicy.Decimal
