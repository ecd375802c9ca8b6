import Mathlib.Data.List.Forall2
import SceneDoc.Json.Basic
import SceneDoc.Json.Token

namespace SceneDoc
namespace JsonGrammar

structure Digits (ds : List Char) : Prop where
  nonempty : ds ≠ []
  digits : ∀ c ∈ ds, c.isDigit = true

inductive Fraction : List Char → Prop
  | none : Fraction []
  | point {ds : List Char} (digits : Digits ds) : Fraction ('.' :: ds)

inductive Power : List Char → Prop
  | none : Power []
  | power {e : Char} {sign ds : List Char} (letter : e = 'e' ∨ e = 'E')
      (signed : sign = [] ∨ sign = ['+'] ∨ sign = ['-']) (digits : Digits ds) :
      Power (e :: sign ++ ds)

/-- A number without its sign. Only a zero on its own starts with a zero. -/
inductive Magnitude : List Char → Prop
  | mk {whole fraction power : List Char} (digits : Digits whole)
      (leading : whole.head? = some '0' → whole = ['0']) (point : Fraction fraction)
      (exponent : Power power) : Magnitude (whole ++ fraction ++ power)

inductive Numeral : List Char → Prop
  | plain {cs : List Char} (magnitude : Magnitude cs) : Numeral cs
  | minus {cs : List Char} (magnitude : Magnitude cs) : Numeral ('-' :: cs)

/-- How a character may be written in a text: as it is, or escaped by a letter or by the code units
that it has in UTF-16. -/
inductive Spelling : Char → List Char → Prop
  | plain {c : Char} (visible : 32 ≤ c.toNat) (quote : c ≠ '"') (backslash : c ≠ '\\') :
      Spelling c [c]
  | letter {c l : Char} (short : Token.unescape? l = some c) : Spelling c ['\\', l]
  | unit {a b c d : Char} {n : Nat} (number : hexNumber? [a, b, c, d] = some n)
      (high : Token.isHigh n = false) (low : Token.isLow n = false) :
      Spelling (.ofNat n) ['\\', 'u', a, b, c, d]
  | pair {a b c d e f g h : Char} {m n : Nat} (first : hexNumber? [a, b, c, d] = some m)
      (high : Token.isHigh m = true) (second : hexNumber? [e, f, g, h] = some n)
      (low : Token.isLow n = true) :
      Spelling (.ofNat (0x10000 + (m - 0xD800) * 0x400 + (n - 0xDC00)))
        ['\\', 'u', a, b, c, d, '\\', 'u', e, f, g, h]

inductive Quoted (s : String) : List Char → Prop
  | mk {parts : List (List Char)} (each : List.Forall₂ Spelling s.toList parts) :
      Quoted s ('"' :: parts.flatten ++ ['"'])

def Blanks (cs : List Char) : Prop := ∀ c ∈ cs, Token.isBlank c = true

theorem Blanks.nil : Blanks [] := fun _ hc => nomatch hc

inductive Key (k : String) : List Char → Prop
  | mk {before cs after : List Char} (front : Blanks before) (quoted : Quoted k cs)
      (back : Blanks after) : Key k (before ++ cs ++ after ++ [':'])

mutual

inductive Spells : Json String → List Char → Prop
  | null : Spells .null ['n', 'u', 'l', 'l']
  | true : Spells (.bool .true) ['t', 'r', 'u', 'e']
  | false : Spells (.bool .false) ['f', 'a', 'l', 's', 'e']
  | number {cs : List Char} (numeral : Numeral cs) : Spells (.number (.ofList cs)) cs
  | string {s : String} {cs : List Char} (quoted : Quoted s cs) : Spells (.string s) cs
  | emptyArray {inner : List Char} (blank : Blanks inner) : Spells (.array []) ('[' :: inner ++ [']'])
  | array {items : List (Json String)} {cs : List Char} (each : Items items cs) :
      Spells (.array items) ('[' :: cs ++ [']'])
  | emptyObject {inner : List Char} (blank : Blanks inner) :
      Spells (.object []) ('{' :: inner ++ ['}'])
  | object {entries : List (String × Json String)} {cs : List Char} (each : Entries entries cs) :
      Spells (.object entries) ('{' :: cs ++ ['}'])

inductive Spaced : Json String → List Char → Prop
  | mk {t : Json String} {before cs after : List Char} (front : Blanks before) (value : Spells t cs)
      (back : Blanks after) : Spaced t (before ++ cs ++ after)

inductive Items : List (Json String) → List Char → Prop
  | one {t : Json String} {cs : List Char} (value : Spaced t cs) : Items [t] cs
  | more {t : Json String} {items : List (Json String)} {cs rest : List Char} (value : Spaced t cs)
      (others : Items items rest) : Items (t :: items) (cs ++ ',' :: rest)

inductive Entries : List (String × Json String) → List Char → Prop
  | one {k : String} {t : Json String} {key cs : List Char} (name : Key k key) (value : Spaced t cs) :
      Entries [(k, t)] (key ++ cs)
  | more {k : String} {t : Json String} {entries : List (String × Json String)}
      {key cs rest : List Char} (name : Key k key) (value : Spaced t cs)
      (others : Entries entries rest) : Entries ((k, t) :: entries) (key ++ cs ++ ',' :: rest)

end

/-- A JSON text: one value and nothing else. -/
def IsText (t : Json String) (s : String) : Prop := Spaced t s.toList

end JsonGrammar
end SceneDoc
