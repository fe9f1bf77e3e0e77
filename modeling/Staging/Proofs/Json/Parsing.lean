import Mathlib
import Staging.Json.Reader
import Staging.Proofs.SortedMap
import Staging.Proofs.Json.Lexing

namespace Staging.Json

mutual

def spell : Json → Spelled
  | .null => .null
  | .bool b => .bool b
  | .number n => .number (.ok n)
  | .text s => .text (.ok s)
  | .array items => .array (spellItems items) none
  | .object members => .object (spellMembers members) none

def spellItems : List Json → List Spelled
  | [] => []
  | j :: r => spell j :: spellItems r

def spellMembers : List (String × Json) → List (Name × Spelled)
  | [] => []
  | (k, j) :: r => (.text k, spell j) :: spellMembers r

end

namespace Spelled

theorem tokensOf_eq_cons (j : Json) : ∃ t ts, tokensOf j = t :: ts ∧ t ≠ .closeBracket := by
  cases j <;> exact ⟨_, _, rfl, nofun⟩

theorem valueUpTo_openBracket {t : Token} (h : t ≠ .closeBracket) (fuel : Nat) (ts : List Token) :
    valueUpTo (fuel + 1) (.openBracket :: t :: ts) =
      (.array (itemsUpTo fuel (t :: ts)).1 (itemsUpTo fuel (t :: ts)).2.1,
        (itemsUpTo fuel (t :: ts)).2.2) := by
  cases t with
  | closeBracket => exact absurd rfl h
  | _ => rfl

theorem itemTokens_eq_cons (j : Json) (l : List Json) :
    ∃ t ts, itemTokens (j :: l) = t :: ts ∧ t ≠ .closeBracket := by
  obtain ⟨t, ts, he, ht⟩ := tokensOf_eq_cons j
  cases l with
  | nil => exact ⟨t, ts ++ [.closeBracket], by rw [itemTokens, he, List.cons_append], ht⟩
  | cons k r =>
    exact ⟨t, ts ++ .comma :: itemTokens (k :: r), by simp [itemTokens, he], ht⟩

theorem itemsUpTo_closeBracket {fuel : Nat} {ts us : List Token} {v : Spelled}
    (h : valueUpTo fuel ts = (v, .closeBracket :: us)) :
    itemsUpTo (fuel + 1) ts = ([v], none, us) := by
  rw [itemsUpTo, h]

theorem itemsUpTo_comma {fuel : Nat} {ts us rest : List Token} {v : Spelled} {vs : List Spelled}
    {cut : Option Fault} (h : valueUpTo fuel ts = (v, .comma :: us))
    (h' : itemsUpTo fuel us = (vs, cut, rest)) :
    itemsUpTo (fuel + 1) ts = (v :: vs, cut, rest) := by
  simp only [itemsUpTo, h, h']

theorem membersUpTo_closeBrace {fuel : Nat} {ts us : List Token} {v : Spelled}
    (k : Except Fault String) (h : valueUpTo fuel ts = (v, .closeBrace :: us)) :
    membersUpTo (fuel + 1) (.text k :: .colon :: ts) = ([(nameOf k, v)], none, us) := by
  simp only [membersUpTo, h]

theorem membersUpTo_comma {fuel : Nat} {ts us rest : List Token} {v : Spelled}
    {ms : List (Name × Spelled)} {cut : Option Fault} (k : Except Fault String)
    (h : valueUpTo fuel ts = (v, .comma :: us)) (h' : membersUpTo fuel us = (ms, cut, rest)) :
    membersUpTo (fuel + 1) (.text k :: .colon :: ts) = ((nameOf k, v) :: ms, cut, rest) := by
  simp only [membersUpTo, h, h']

mutual

theorem valueUpTo_tokensOf {j : Json} {fuel : Nat} (h : 2 * (tokensOf j).length ≤ fuel)
    (ts : List Token) : valueUpTo fuel (tokensOf j ++ ts) = (spell j, ts) := by
  cases fuel with
  | zero =>
    obtain ⟨t, r, he, -⟩ := tokensOf_eq_cons j
    rw [he, List.length_cons] at h
    omega
  | succ fuel =>
    match j with
    | .null | .bool _ | .number _ | .text _ => rfl
    | .array [] => rfl
    | .array (j :: l) =>
      simp only [tokensOf, List.length_cons] at h
      obtain ⟨t, us, he, ht⟩ := itemTokens_eq_cons j l
      have hi : itemsUpTo fuel (itemTokens (j :: l) ++ ts) = (spellItems (j :: l), none, ts) :=
        itemsUpTo_itemTokens (by omega) ts
      rw [tokensOf, List.cons_append]
      rw [he, List.cons_append] at hi ⊢
      rw [valueUpTo_openBracket ht, hi, spell]
    | .object [] => rfl
    | .object (m :: l) =>
      simp only [tokensOf, List.length_cons] at h
      have hm : membersUpTo fuel (memberTokens (m :: l) ++ ts) = (spellMembers (m :: l), none, ts) :=
        membersUpTo_memberTokens (by omega) ts
      have ho : valueUpTo (fuel + 1) (.openBrace :: (memberTokens (m :: l) ++ ts)) =
          (.object (membersUpTo fuel (memberTokens (m :: l) ++ ts)).1
            (membersUpTo fuel (memberTokens (m :: l) ++ ts)).2.1,
            (membersUpTo fuel (memberTokens (m :: l) ++ ts)).2.2) := by
        cases l <;> rfl
      rw [tokensOf, List.cons_append, ho, hm, spell]
termination_by fuel

theorem itemsUpTo_itemTokens {j : Json} {l : List Json} {fuel : Nat}
    (h : 2 * (itemTokens (j :: l)).length ≤ fuel) (ts : List Token) :
    itemsUpTo fuel (itemTokens (j :: l) ++ ts) = (spellItems (j :: l), none, ts) := by
  cases fuel with
  | zero =>
    obtain ⟨t, us, he, -⟩ := itemTokens_eq_cons j l
    rw [he, List.length_cons] at h
    omega
  | succ fuel =>
    cases l with
    | nil =>
      simp only [itemTokens, List.length_append, List.length_singleton] at h
      simp only [itemTokens, List.append_assoc, List.singleton_append]
      exact itemsUpTo_closeBracket (valueUpTo_tokensOf (by omega) _)
    | cons k r =>
      simp only [itemTokens, List.length_append, List.length_cons] at h
      simp only [itemTokens, List.append_assoc, List.cons_append]
      exact itemsUpTo_comma (valueUpTo_tokensOf (by omega) _) (itemsUpTo_itemTokens (by omega) ts)
termination_by fuel

theorem membersUpTo_memberTokens {m : String × Json} {l : List (String × Json)} {fuel : Nat}
    (h : 2 * (memberTokens (m :: l)).length ≤ fuel) (ts : List Token) :
    membersUpTo fuel (memberTokens (m :: l) ++ ts) = (spellMembers (m :: l), none, ts) := by
  obtain ⟨k, j⟩ := m
  cases fuel with
  | zero => cases l <;> simp [memberTokens] at h
  | succ fuel =>
    cases l with
    | nil =>
      simp only [memberTokens, List.length_append, List.length_cons, List.length_nil] at h
      simp only [memberTokens, List.append_assoc, List.cons_append, List.nil_append]
      exact membersUpTo_closeBrace (.ok k) (valueUpTo_tokensOf (by omega) _)
    | cons m r =>
      simp only [memberTokens, List.length_append, List.length_cons] at h
      simp only [memberTokens, List.append_assoc, List.cons_append]
      exact membersUpTo_comma (.ok k) (valueUpTo_tokensOf (by omega) _)
        (membersUpTo_memberTokens (by omega) ts)
termination_by fuel

end

theorem parse_of_lexes {j : Json} {b : Bytes} (h : Lexes b (tokensOf j) []) :
    parse b = (spell j, []) := by
  have hv : valueUpTo (2 * (tokensOf j).length + 2) (tokensOf j ++ []) = (spell j, []) :=
    valueUpTo_tokensOf (by omega) []
  rw [List.append_nil] at hv
  rw [parse, h.tokens_eq, hv]

end Spelled

theorem decode_of_lexes {α : Type} (read : Spelled → Except Fault α) {j : Json} {b : Bytes}
    (h : Lexes b (tokensOf j) []) : decode read b = read (spell j) := by
  rw [decode, Spelled.parse_of_lexes h]
  simp only [bind, Except.bind, List.isEmpty_nil, if_true]
  cases read (spell j) <;> rfl

theorem decode_compact {α : Type} (read : Spelled → Except Fault α) {j : Json}
    (h : Reread j.floats) : decode read j.compact = read (spell j) :=
  decode_of_lexes read (lexes_compact_all h)

end Staging.Json
