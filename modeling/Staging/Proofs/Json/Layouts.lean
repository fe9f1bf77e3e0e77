import Mathlib
import Staging.Proofs.Json.Following

namespace Staging.Json

theorem lexes_newLine (indent : Nat) {b r : Bytes} {ts : List Token} (h : Lexes b ts r) :
    Lexes (newLine indent ++ b) ts r := by
  apply Lexes.blank _ h
  rw [newLine, List.dropWhile_eq_nil_iff]
  intro c hc
  rcases List.mem_cons.mp hc with rfl | hc
  · rfl
  · rw [List.eq_of_mem_replicate hc]
    rfl

theorem ends_newLine (indent : Nat) (r : Bytes) : Ends (newLine indent ++ r) := by
  rintro c ⟨⟩
  rfl

theorem lexes_prettyMember (indent : Nat) (k : String) {b r : Bytes} {ts : List Token}
    (h : Lexes b ts r) :
    Lexes (newLine indent ++ (renderText k ++ Ascii.colon :: Ascii.space :: b))
      (.text (.ok k) :: .colon :: ts) r :=
  lexes_newLine indent (lexes_member k (h.blank (w := [Ascii.space]) rfl))

mutual

theorem lexes_prettyAt (indent : Nat) {j : Json} (h : Reread j.floats) {rest : Bytes}
    (hr : Ends rest) : Lexes (prettyAt indent j ++ rest) (tokensOf j) rest := by
  match j with
  | .null => exact lexes_null rest
  | .bool true => exact lexes_true rest
  | .bool false => exact lexes_false rest
  | .number (.int i hi) => exact lexes_render (Number.rereads_int i hi) hr
  | .number (.float x) => exact lexes_render (h x (List.mem_singleton_self x)) hr
  | .text s => exact lexes_renderText s rest
  | .array [] => exact Lexes.cons rfl (lexes_closeBracket rest)
  | .array (j :: r) =>
    have hi := lexes_prettyItems (indent + 1) indent (l := j :: r) h rest
    simpa [prettyAt, tokensOf] using Lexes.cons (c := Ascii.openBracket) rfl hi
  | .object [] => exact Lexes.cons rfl (lexes_closeBrace rest)
  | .object (m :: r) =>
    have hm := lexes_prettyMembers (indent + 1) indent (l := m :: r) h rest
    simpa [prettyAt, tokensOf] using Lexes.cons (c := Ascii.openBrace) rfl hm

theorem lexes_prettyItems (indent outer : Nat) {l : List Json} (h : Reread (floatsItems l))
    (rest : Bytes) :
    Lexes (prettyItems indent l ++ (newLine outer ++ Ascii.closeBracket :: rest)) (itemTokens l)
      rest := by
  match l with
  | [] => exact lexes_newLine outer (lexes_closeBracket rest)
  | [j] =>
    have hj := lexes_prettyAt indent (reread_append.mp h).1
      (ends_newLine outer (Ascii.closeBracket :: rest))
    have hend := hj.trans (lexes_newLine outer (lexes_closeBracket rest))
    simpa [prettyItems, itemTokens] using lexes_newLine indent hend
  | j :: k :: r =>
    have hj := lexes_prettyAt indent (reread_append.mp h).1
      (ends_comma (prettyItems indent (k :: r) ++ (newLine outer ++ Ascii.closeBracket :: rest)))
    have hk := lexes_prettyItems indent outer (reread_append.mp h).2 rest
    simpa [prettyItems, itemTokens] using lexes_newLine indent (hj.trans (Lexes.cons rfl hk))

theorem lexes_prettyMembers (indent outer : Nat) {l : List (String × Json)}
    (h : Reread (floatsMembers l)) (rest : Bytes) :
    Lexes (prettyMembers indent l ++ (newLine outer ++ Ascii.closeBrace :: rest)) (memberTokens l)
      rest := by
  match l with
  | [] => exact lexes_newLine outer (lexes_closeBrace rest)
  | [(k, j)] =>
    have hj := lexes_prettyAt indent (reread_append.mp h).1
      (ends_newLine outer (Ascii.closeBrace :: rest))
    have hend := hj.trans (lexes_newLine outer (lexes_closeBrace rest))
    simpa [prettyMembers, memberTokens] using lexes_prettyMember indent k hend
  | (k, j) :: m :: r =>
    have hj := lexes_prettyAt indent (reread_append.mp h).1
      (ends_comma (prettyMembers indent (m :: r) ++ (newLine outer ++ Ascii.closeBrace :: rest)))
    have hm := lexes_prettyMembers indent outer (reread_append.mp h).2 rest
    simpa [prettyMembers, memberTokens] using
      lexes_prettyMember indent k (hj.trans (Lexes.cons rfl hm))

end

theorem ends_of_isSpace {w : Bytes} (h : ∀ c ∈ w, isSpace c = true) : Ends w := by
  intro c hc
  have hspace := h c (List.mem_of_mem_head? hc)
  simp only [isSpace, Bool.or_eq_true, decide_eq_true_eq] at hspace
  rcases hspace with ((rfl | rfl) | rfl) | rfl <;> rfl

theorem decode_pretty {α : Type} (read : Spelled → Except Fault α) {j : Json}
    (h : Reread j.floats) {w : Bytes} (hw : ∀ c ∈ w, isSpace c = true) :
    decode read (j.pretty ++ w) = read (spell j) := by
  have hblank := (Lexes.refl []).blank (List.dropWhile_eq_nil_iff.mpr hw)
  rw [List.append_nil] at hblank
  have hl := (lexes_prettyAt 0 h (ends_of_isSpace hw)).trans hblank
  rw [List.append_nil] at hl
  exact decode_of_lexes read hl

structure Plain (b : Bytes) : Prop where
  isText : Bytes.IsText b
  space_le : ∀ c ∈ b, Ascii.space ≤ c

theorem plain_nil : Plain [] := ⟨Bytes.isText_nil, nofun⟩

theorem Plain.append {a b : Bytes} (ha : Plain a) (hb : Plain b) : Plain (a ++ b) :=
  ⟨ha.isText.append hb.isText, List.forall_mem_append.mpr ⟨ha.space_le, hb.space_le⟩⟩

theorem Plain.lineFeed_notMem {b : Bytes} (h : Plain b) : Ascii.lineFeed ∉ b :=
  fun hm => absurd (h.space_le _ hm) (by decide)

theorem Plain.getLast?_ne {b : Bytes} (h : Plain b) : b.getLast? ≠ some Ascii.carriageReturn :=
  fun hl => absurd (h.space_le _ (List.mem_of_getLast? hl)) (by decide)

def printable (c : UInt8) : Bool := Ascii.space ≤ c && c < 128

theorem plain_of_printable {b : Bytes} (h : b.all printable = true) : Plain b := by
  have hboth (c : UInt8) (hc : c ∈ b) : Ascii.space ≤ c ∧ c < 128 := by
    simpa [printable] using List.all_eq_true.mp h c hc
  exact ⟨Bytes.isText_ascii fun c hc => (hboth c hc).2, fun c hc => (hboth c hc).1⟩

theorem Plain.cons {c : UInt8} {b : Bytes} (hc : printable c = true) (hb : Plain b) :
    Plain (c :: b) :=
  (plain_of_printable (b := [c]) (by simpa using hc)).append hb

theorem plain_renderText (s : String) : Plain (renderText s) :=
  ⟨isText_renderText s, fun _ => space_le_of_mem_renderText⟩

theorem printable_of_isDigit {c : UInt8} (h : Bytes.isDigit c = true) : printable c = true := by
  obtain ⟨d, hd, rfl⟩ := Bytes.exists_digit h
  revert d
  decide

theorem all_printable_ofNat (n : Nat) : (Bytes.ofNat n).all printable = true :=
  List.all_eq_true.mpr fun c hc => printable_of_isDigit (Bytes.isDigit_of_mem_ofNat c hc)

theorem all_printable_render (layout : DecimalLayout) (negative : Bool) (x : Decimal) :
    (layout.render negative x).all printable = true := by
  have hds := all_printable_ofNat x.digits
  have htake (n : Nat) : ((Bytes.ofNat x.digits).take n).all printable = true :=
    List.all_eq_true.mpr fun c hc => List.all_eq_true.mp hds c (List.mem_of_mem_take hc)
  have hdrop (n : Nat) : ((Bytes.ofNat x.digits).drop n).all printable = true :=
    List.all_eq_true.mpr fun c hc => List.all_eq_true.mp hds c (List.mem_of_mem_drop hc)
  have hzeros (n : Nat) : (List.replicate n Ascii.zero).all printable = true := by
    apply List.all_eq_true.mpr
    intro c hc
    rw [List.eq_of_mem_replicate hc]
    rfl
  have hminus : printable Ascii.minus = true := rfl
  have hplus : printable Ascii.plus = true := rfl
  have hpoint : printable Ascii.point = true := rfl
  have hzero : printable Ascii.zero = true := rfl
  have he : printable Ascii.lowerE = true := rfl
  unfold DecimalLayout.render
  dsimp only
  split_ifs <;>
    simp only [List.all_append, List.all_cons, List.all_nil, hds, htake, hdrop, hzeros,
      all_printable_ofNat, hminus, hplus, hpoint, hzero, he, Bool.and_self]

theorem plain_render (n : Number) : Plain n.render := by
  cases n with
  | int i _ =>
    simp only [Number.render, Bytes.ofInt]
    have hds := plain_of_printable (all_printable_ofNat i.natAbs)
    split_ifs
    · exact hds.cons rfl
    · exact hds
  | float x => exact plain_of_printable (all_printable_render layout x.negative x.shortest)

mutual

theorem plain_compact (j : Json) : Plain j.compact := by
  cases j with
  | null => exact plain_of_printable (by decide)
  | bool b => cases b <;> exact plain_of_printable (by decide)
  | number n => exact plain_render n
  | text s => exact plain_renderText s
  | array items => exact ((plain_compactItems items).append (plain_nil.cons rfl)).cons rfl
  | object members => exact ((plain_compactMembers members).append (plain_nil.cons rfl)).cons rfl

theorem plain_compactItems (l : List Json) : Plain (compactItems l) := by
  match l with
  | [] => exact plain_nil
  | [j] => exact plain_compact j
  | j :: k :: r => exact (plain_compact j).append ((plain_compactItems (k :: r)).cons rfl)

theorem plain_compactMembers (l : List (String × Json)) : Plain (compactMembers l) := by
  match l with
  | [] => exact plain_nil
  | [(k, j)] => exact (plain_renderText k).append ((plain_compact j).cons rfl)
  | (k, j) :: m :: r =>
    have hr := (plain_compactMembers (m :: r)).cons (c := Ascii.comma) rfl
    have hj := ((plain_renderText k).append ((plain_compact j).cons (c := Ascii.colon) rfl)).append hr
    simpa [compactMembers] using hj

end

theorem isText_newLine (indent : Nat) : Bytes.IsText (newLine indent) := by
  apply Bytes.isText_ascii
  intro c hc
  rcases List.mem_cons.mp hc with rfl | hc
  · decide
  · rw [List.eq_of_mem_replicate hc]
    decide

theorem isText_cons {c : UInt8} {b : Bytes} (hc : printable c = true) (hb : Bytes.IsText b) :
    Bytes.IsText (c :: b) :=
  (plain_nil.cons hc).isText.append hb

theorem isText_prettyMember (indent : Nat) (k : String) :
    Bytes.IsText (newLine indent ++ renderText k ++ [Ascii.colon, Ascii.space]) :=
  ((isText_newLine indent).append (isText_renderText k)).append ((plain_nil.cons rfl).cons rfl).isText

mutual

theorem isText_prettyAt (indent : Nat) (j : Json) : Bytes.IsText (prettyAt indent j) := by
  match j with
  | .null => exact (plain_compact .null).isText
  | .bool true => exact (plain_compact (.bool true)).isText
  | .bool false => exact (plain_compact (.bool false)).isText
  | .number n => exact (plain_render n).isText
  | .text s => exact isText_renderText s
  | .array [] => exact (plain_compact (.array [])).isText
  | .array (j :: r) =>
    have hitems := (isText_prettyItems (indent + 1) (j :: r)).append (isText_newLine indent)
    exact isText_cons rfl (hitems.append (plain_nil.cons rfl).isText)
  | .object [] => exact (plain_compact (.object [])).isText
  | .object (m :: r) =>
    have hmembers := (isText_prettyMembers (indent + 1) (m :: r)).append (isText_newLine indent)
    exact isText_cons rfl (hmembers.append (plain_nil.cons rfl).isText)

theorem isText_prettyItems (indent : Nat) (l : List Json) : Bytes.IsText (prettyItems indent l) := by
  match l with
  | [] => exact Bytes.isText_nil
  | [j] => exact (isText_newLine indent).append (isText_prettyAt indent j)
  | j :: k :: r =>
    exact ((isText_newLine indent).append (isText_prettyAt indent j)).append
      (isText_cons rfl (isText_prettyItems indent (k :: r)))

theorem isText_prettyMembers (indent : Nat) (l : List (String × Json)) :
    Bytes.IsText (prettyMembers indent l) := by
  match l with
  | [] => exact Bytes.isText_nil
  | [(k, j)] => exact (isText_prettyMember indent k).append (isText_prettyAt indent j)
  | (k, j) :: m :: r =>
    exact ((isText_prettyMember indent k).append (isText_prettyAt indent j)).append
      (isText_cons rfl (isText_prettyMembers indent (m :: r)))

end

theorem isText_pretty (j : Json) : Bytes.IsText j.pretty := isText_prettyAt 0 j

end Staging.Json
