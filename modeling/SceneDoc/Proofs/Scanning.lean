import SceneDoc.Proofs.JsonTrees
import SceneDoc.Proofs.Lexemes

namespace SceneDoc

open JsonGrammar

namespace Token

def Scans (cs : List Char) (ts : List Token) : Prop := ∀ n, cs.length ≤ n → scanWithin n cs = some ts

theorem Scans.nil : Scans [] [] := by
  intro n _
  cases n <;> rfl

theorem Scans.blank {c : Char} {cs : List Char} {ts : List Token} (h : isBlank c = true)
    (tail : Scans cs ts) : Scans (c :: cs) ts := by
  intro n hn
  cases n with
  | zero => simp at hn
  | succ n => simpa [scanWithin, h] using tail n (by simpa using hn)

theorem Scans.blanks {cs rest : List Char} {ts : List Token} (h : Blanks cs)
    (tail : Scans rest ts) : Scans (cs ++ rest) ts := by
  induction cs with
  | nil => exact tail
  | cons c cs ih =>
    obtain ⟨hc, hcs⟩ := List.forall_mem_cons.mp h
    exact .blank hc (ih hcs)

/-- One token, and what comes after it. -/
theorem Scans.token {c : Char} {cs rest : List Char} {t : Token} {ts : List Token}
    (visible : isBlank c = false) (first : first? (c :: cs ++ rest) = some (t, rest))
    (tail : Scans rest ts) : Scans (c :: cs ++ rest) (t :: ts) := by
  intro n hn
  cases n with
  | zero => simp at hn
  | succ n =>
    have hrest : rest.length ≤ n := by
      simp only [List.cons_append, List.length_cons, List.length_append] at hn
      omega
    simp only [List.cons_append] at first ⊢
    simp [scanWithin, visible, first, tail n hrest]

/-- One token of one character. -/
theorem Scans.char {c : Char} {rest : List Char} {t : Token} {ts : List Token}
    (visible : isBlank c = false) (first : first? (c :: rest) = some (t, rest))
    (tail : Scans rest ts) : Scans (c :: rest) (t :: ts) :=
  @Scans.token c [] rest t ts visible first tail

end Token

namespace Json

mutual

def tokens : Json String → List Token
  | .null => [.null]
  | .bool b => [.bool b]
  | .number literal => [.number literal]
  | .string s => [.text s]
  | .array items => .openArray :: itemTokens items ++ [.closeArray]
  | .object entries => .openObject :: entryTokens entries ++ [.closeObject]

def itemTokens : List (Json String) → List Token
  | [] => []
  | [t] => tokens t
  | t :: u :: rest => tokens t ++ .comma :: itemTokens (u :: rest)

def entryTokens : List (String × Json String) → List Token
  | [] => []
  | [(k, t)] => .text k :: .colon :: tokens t
  | (k, t) :: e :: rest => .text k :: .colon :: tokens t ++ .comma :: entryTokens (e :: rest)

end

end Json

namespace JsonGrammar

open Token

/-- Ahead of anything that ends a number, these characters give these tokens. -/
def Gives (cs : List Char) (us : List Token) : Prop :=
  ∀ rest ts, EndsNumber rest → Scans rest ts → Scans (cs ++ rest) (us ++ ts)

namespace Gives

variable {cs ds : List Char} {us vs : List Token}

theorem blanks (h : Blanks cs) : Gives cs [] := fun _ _ _ tail => tail.blanks h

theorem spaced {front back : List Char} (before : Blanks front) (h : Gives cs us)
    (after : Blanks back) : Gives (front ++ cs ++ back) us := by
  intro rest ts ends tail
  have hvalue := h _ _ (ends.blanks after) (tail.blanks after)
  simpa using hvalue.blanks before

theorem comma (h : Gives cs us) (h' : Gives ds vs) :
    Gives (cs ++ ',' :: ds) (us ++ .comma :: vs) := by
  intro rest ts ends tail
  have hcomma : Scans (',' :: (ds ++ rest)) (.comma :: (vs ++ ts)) :=
    .char rfl rfl (h' _ _ ends tail)
  simpa using h _ _ (.cons rfl) hcomma

theorem bracketed (h : Gives cs us) :
    Gives ('[' :: cs ++ [']']) (.openArray :: us ++ [.closeArray]) := by
  intro rest ts _ tail
  have hclose : Scans (']' :: rest) (.closeArray :: ts) := .char rfl rfl tail
  have hopen := Scans.char (c := '[') rfl rfl (h _ _ (.cons rfl) hclose)
  simpa using hopen

theorem braced (h : Gives cs us) :
    Gives ('{' :: cs ++ ['}']) (.openObject :: us ++ [.closeObject]) := by
  intro rest ts _ tail
  have hclose : Scans ('}' :: rest) (.closeObject :: ts) := .char rfl rfl tail
  have hopen := Scans.char (c := '{') rfl rfl (h _ _ (.cons rfl) hclose)
  simpa using hopen

end Gives

theorem Quoted.scans {s : String} {cs rest : List Char} {ts : List Token} (h : Quoted s cs)
    (tail : Scans rest ts) : Scans (cs ++ rest) (.text s :: ts) := by
  obtain ⟨each⟩ := h
  refine Scans.token rfl ?_ tail
  have hread := string?_quoted each rest
  simp only [List.append_eq, List.cons_append, List.append_assoc, List.nil_append, first?]
  rw [hread, Option.map_some, String.ofList_toList]

theorem Key.scans {k : String} {cs rest : List Char} {ts : List Token} (h : Key k cs)
    (tail : Scans rest ts) : Scans (cs ++ rest) (.text k :: .colon :: ts) := by
  obtain ⟨front, quoted, back⟩ := h
  have hcolon : Scans (':' :: rest) (.colon :: ts) := .char rfl rfl tail
  have hkey := quoted.scans (hcolon.blanks back)
  simpa using hkey.blanks front

theorem Key.gives {k : String} {cs ds : List Char} {us : List Token} (h : Key k cs)
    (h' : Gives ds us) : Gives (cs ++ ds) (.text k :: .colon :: us) := by
  intro rest ts ends tail
  simpa using h.scans (h' _ _ ends tail)

theorem Numeral.gives {cs : List Char} (h : Numeral cs) : Gives cs [.number (.ofList cs)] := by
  intro rest ts ends tail
  have hread := number?_append h ends
  obtain ⟨c, cs, rfl, hc⟩ := numeral_head h
  refine Scans.token ?_ ?_ tail
  · exact numeral_visible hc
  · rw [List.cons_append, first?_number hc, ← List.cons_append, hread]
    rfl

/-- Whatever spells a tree gives the tokens of the tree. -/
theorem Spaced.gives {t : Json String} {cs : List Char} (h : Spaced t cs) : Gives cs t.tokens := by
  refine @Spaced.rec (fun t cs _ => Gives cs t.tokens) (fun t cs _ => Gives cs t.tokens)
    (fun items cs _ => Gives cs (Json.itemTokens items))
    (fun entries cs _ => Gives cs (Json.entryTokens entries))
    ?null ?true ?false ?number ?string ?emptyArray ?array ?emptyObject ?object ?spaced
    ?item ?items ?entry ?entries t cs h
  case null => exact fun _ _ _ tail => .token rfl rfl tail
  case true => exact fun _ _ _ tail => .token rfl rfl tail
  case false => exact fun _ _ _ tail => .token rfl rfl tail
  case number => exact fun numeral => numeral.gives
  case string => exact fun quoted _ _ _ tail => quoted.scans tail
  case emptyArray => exact fun blank => (Gives.blanks blank).bracketed
  case array => exact fun _ each => each.bracketed
  case emptyObject => exact fun blank => (Gives.blanks blank).braced
  case object => exact fun _ each => each.braced
  case spaced => exact fun front _ back value => value.spaced front back
  case item => exact fun _ value => value
  case items =>
    intro t items cs rest _ others value hothers
    have htokens := value.comma hothers
    cases others <;> exact htokens
  case entry => exact fun name _ value => name.gives value
  case entries =>
    intro k t entries key cs rest name _ others value hothers
    have htokens := name.gives (value.comma hothers)
    rw [← List.append_assoc] at htokens
    cases others <;> exact htokens

end JsonGrammar
end SceneDoc
