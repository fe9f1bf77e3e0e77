import Mathlib
import Staging.Proofs.Json.Text
import Staging.Proofs.Json.Number

namespace Staging.Json

/-- The bytes `b` begin with the tokens `ts`, and `r` is what is left of them. -/
def Lexes (b : Bytes) (ts : List Token) (r : Bytes) : Prop :=
  ∀ fuel, b.length ≤ fuel → ∃ left, r.length ≤ left ∧ tokensUpTo fuel b = ts ++ tokensUpTo left r

theorem Lexes.one {b r : Bytes} {t : Token} (h : nextToken? b = some (t, r))
    (hl : r.length < b.length) : Lexes b [t] r := by
  intro fuel hf
  cases fuel with
  | zero => omega
  | succ fuel => exact ⟨fuel, by omega, by simp [tokensUpTo, h]⟩

theorem Lexes.trans {b r q : Bytes} {ts us : List Token} (h : Lexes b ts r) (h' : Lexes r us q) :
    Lexes b (ts ++ us) q := by
  intro fuel hf
  obtain ⟨left, hl, he⟩ := h fuel hf
  obtain ⟨left', hl', he'⟩ := h' left hl
  exact ⟨left', hl', by rw [he, he', List.append_assoc]⟩

theorem Lexes.cons {c : UInt8} {b r : Bytes} {t : Token} {ts : List Token}
    (h : nextToken? (c :: b) = some (t, b)) (h' : Lexes b ts r) : Lexes (c :: b) (t :: ts) r :=
  (Lexes.one h (Nat.lt_succ_self _)).trans h'

theorem Lexes.tokens_eq {b : Bytes} {ts : List Token} (h : Lexes b ts []) : tokens b = ts := by
  obtain ⟨left, -, he⟩ := h b.length (Nat.le_refl _)
  rw [tokens, he]
  cases left <;> simp [tokensUpTo, nextToken?]

theorem lexes_renderText (s : String) (rest : Bytes) :
    Lexes (renderText s ++ rest) [.text (.ok s)] rest := by
  apply Lexes.one (nextToken?_renderText s rest)
  simp only [renderText, List.cons_append, List.length_cons, List.length_append]
  omega

theorem lexes_render {n : Number} (h : n.Rereads) {rest : Bytes} (hr : Ends rest) :
    Lexes (n.render ++ rest) [.number (.ok n)] rest := by
  apply Lexes.one (nextToken?_render h hr)
  have hne : n.render ≠ [] := by
    intro he
    rw [Number.Rereads, he] at h
    exact missingDigit_ne _ _ h
  rw [List.length_append]
  have := List.length_pos_iff.mpr hne
  omega

theorem ends_comma (r : Bytes) : Ends (Ascii.comma :: r) := by
  rintro c ⟨⟩
  rfl

theorem ends_closeBracket (r : Bytes) : Ends (Ascii.closeBracket :: r) := by
  rintro c ⟨⟩
  rfl

theorem ends_closeBrace (r : Bytes) : Ends (Ascii.closeBrace :: r) := by
  rintro c ⟨⟩
  rfl

theorem ends_nil : Ends [] := nofun

mutual

def floats : Json → List Binary64.Finite
  | .number (.float x) => [x]
  | .array items => floatsItems items
  | .object members => floatsMembers members
  | _ => []

def floatsItems : List Json → List Binary64.Finite
  | [] => []
  | j :: r => floats j ++ floatsItems r

def floatsMembers : List (String × Json) → List Binary64.Finite
  | [] => []
  | (_, j) :: r => floats j ++ floatsMembers r

end

def Reread (l : List Binary64.Finite) : Prop := ∀ x ∈ l, (Number.float x).Rereads

theorem reread_append {l m : List Binary64.Finite} : Reread (l ++ m) ↔ Reread l ∧ Reread m :=
  List.forall_mem_append

theorem reread_nil : Reread [] := List.forall_mem_nil _

theorem reread_members {l : List (String × Json)} (h : ∀ p ∈ l, Reread p.2.floats) :
    Reread (floatsMembers l) := by
  induction l with
  | nil => exact reread_nil
  | cons p r ih =>
    obtain ⟨hp, hr⟩ := List.forall_mem_cons.mp h
    exact reread_append.mpr ⟨hp, ih hr⟩

mutual

def tokensOf : Json → List Token
  | .null => [.null]
  | .bool b => [.bool b]
  | .number n => [.number (.ok n)]
  | .text s => [.text (.ok s)]
  | .array items => .openBracket :: itemTokens items
  | .object members => .openBrace :: memberTokens members

def itemTokens : List Json → List Token
  | [] => [.closeBracket]
  | [j] => tokensOf j ++ [.closeBracket]
  | j :: r => tokensOf j ++ .comma :: itemTokens r

def memberTokens : List (String × Json) → List Token
  | [] => [.closeBrace]
  | [(k, j)] => .text (.ok k) :: .colon :: tokensOf j ++ [.closeBrace]
  | (k, j) :: r => .text (.ok k) :: .colon :: tokensOf j ++ .comma :: memberTokens r

end

theorem lexes_null (rest : Bytes) : Lexes (nullWord ++ rest) [.null] rest :=
  Lexes.one rfl (by rw [List.length_append, show nullWord.length = 4 from rfl]; omega)

theorem lexes_true (rest : Bytes) : Lexes (trueWord ++ rest) [.bool true] rest :=
  Lexes.one rfl (by rw [List.length_append, show trueWord.length = 4 from rfl]; omega)

theorem lexes_false (rest : Bytes) : Lexes (falseWord ++ rest) [.bool false] rest :=
  Lexes.one rfl (by rw [List.length_append, show falseWord.length = 5 from rfl]; omega)

theorem lexes_closeBracket (rest : Bytes) :
    Lexes (Ascii.closeBracket :: rest) [.closeBracket] rest :=
  Lexes.one rfl (Nat.lt_succ_self _)

theorem lexes_closeBrace (rest : Bytes) : Lexes (Ascii.closeBrace :: rest) [.closeBrace] rest :=
  Lexes.one rfl (Nat.lt_succ_self _)

theorem lexes_member (k : String) {b r : Bytes} {ts : List Token} (h : Lexes b ts r) :
    Lexes (renderText k ++ Ascii.colon :: b) (.text (.ok k) :: .colon :: ts) r :=
  (lexes_renderText k _).trans (Lexes.cons rfl h)

mutual

theorem lexes_compact {j : Json} (h : Reread j.floats) {rest : Bytes} (hr : Ends rest) :
    Lexes (j.compact ++ rest) (tokensOf j) rest := by
  cases j with
  | null => exact lexes_null rest
  | bool b =>
    cases b with
    | true => exact lexes_true rest
    | false => exact lexes_false rest
  | number n =>
    cases n with
    | int i hi => exact lexes_render (Number.rereads_int i hi) hr
    | float x => exact lexes_render (h x (List.mem_singleton_self x)) hr
  | text s => exact lexes_renderText s rest
  | array items =>
    have hi := lexes_compactItems h rest
    simpa [compact, tokensOf] using Lexes.cons (c := Ascii.openBracket) rfl hi
  | object members =>
    have hm := lexes_compactMembers h rest
    simpa [compact, tokensOf] using Lexes.cons (c := Ascii.openBrace) rfl hm

theorem lexes_compactItems {l : List Json} (h : Reread (floatsItems l)) (rest : Bytes) :
    Lexes (compactItems l ++ Ascii.closeBracket :: rest) (itemTokens l) rest := by
  match l with
  | [] => exact lexes_closeBracket rest
  | [j] =>
    have hj := lexes_compact (reread_append.mp h).1 (ends_closeBracket rest)
    exact hj.trans (lexes_closeBracket rest)
  | j :: k :: r =>
    have hj := lexes_compact (reread_append.mp h).1
      (ends_comma (compactItems (k :: r) ++ Ascii.closeBracket :: rest))
    have hk := lexes_compactItems (reread_append.mp h).2 rest
    simpa [compactItems, itemTokens] using hj.trans (Lexes.cons rfl hk)

theorem lexes_compactMembers {l : List (String × Json)} (h : Reread (floatsMembers l))
    (rest : Bytes) : Lexes (compactMembers l ++ Ascii.closeBrace :: rest) (memberTokens l) rest := by
  match l with
  | [] => exact lexes_closeBrace rest
  | [(k, j)] =>
    have hj := lexes_compact (reread_append.mp h).1 (ends_closeBrace rest)
    simpa [compactMembers, memberTokens] using lexes_member k (hj.trans (lexes_closeBrace rest))
  | (k, j) :: m :: r =>
    have hj := lexes_compact (reread_append.mp h).1
      (ends_comma (compactMembers (m :: r) ++ Ascii.closeBrace :: rest))
    have hm := lexes_compactMembers (reread_append.mp h).2 rest
    simpa [compactMembers, memberTokens] using lexes_member k (hj.trans (Lexes.cons rfl hm))

end

theorem lexes_compact_all {j : Json} (h : Reread j.floats) : Lexes j.compact (tokensOf j) [] := by
  have hl := lexes_compact h ends_nil
  rwa [List.append_nil] at hl

end Staging.Json
