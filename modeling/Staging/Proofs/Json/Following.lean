import Mathlib
import Staging.Proofs.Json.Depth

namespace Staging.Json

namespace TextScan

def isClosed : TextScan → Bool
  | closed _ _ => true
  | broken _ _ => false

def left : TextScan → Bytes
  | closed _ r => r
  | broken _ _ => []

def followed (x : Bytes) : TextScan → TextScan
  | closed c r => closed c (r ++ x)
  | broken kept skipped => broken kept skipped

variable (s : TextScan) (x c : Bytes) (f : Fault)

@[simp] theorem isClosed_prepend : (s.prepend c).isClosed = s.isClosed := by
  rcases s with ⟨_ | _, _⟩ | _ <;> rfl

@[simp] theorem isClosed_spoil : (s.spoil f).isClosed = s.isClosed := by
  cases s <;> rfl

@[simp] theorem left_prepend : (s.prepend c).left = s.left := by
  rcases s with ⟨_ | _, _⟩ | _ <;> rfl

@[simp] theorem left_spoil : (s.spoil f).left = s.left := by
  cases s <;> rfl

@[simp] theorem followed_prepend : (s.prepend c).followed x = (s.followed x).prepend c := by
  rcases s with ⟨_ | _, _⟩ | _ <;> rfl

@[simp] theorem followed_spoil : (s.spoil f).followed x = (s.followed x).spoil f := by
  cases s <;> rfl

end TextScan

section Unit

variable {h₁ h₂ h₃ h₄ : UInt8} {n : Nat} {r : Bytes}

theorem scanText_trail (hu : codeUnit? h₁ h₂ h₃ h₄ = some n) (ht : isTrail n = true) :
    scanText (Ascii.backslash :: Ascii.lowerU :: h₁ :: h₂ :: h₃ :: h₄ :: r) =
      (scanText r).spoil .malformed := by
  rw [scanText.eq_def]
  simp [(by decide : Ascii.backslash ≠ Ascii.quote), hu, ht]

theorem scanText_single (hu : codeUnit? h₁ h₂ h₃ h₄ = some n) (ht : ¬ isTrail n = true)
    (hl : ¬ isLead n = true) :
    scanText (Ascii.backslash :: Ascii.lowerU :: h₁ :: h₂ :: h₃ :: h₄ :: r) =
      (scanText r).prepend (encodeCodePoint n) := by
  rw [scanText.eq_def]
  simp [(by decide : Ascii.backslash ≠ Ascii.quote), hu, ht, hl]

theorem scanText_lone {f : Fault} (hu : codeUnit? h₁ h₂ h₃ h₄ = some n) (ht : ¬ isTrail n = true)
    (hl : isLead n = true) (hf : trailingHalf r = .error f) :
    scanText (Ascii.backslash :: Ascii.lowerU :: h₁ :: h₂ :: h₃ :: h₄ :: r) =
      (scanText r).spoil f := by
  rw [scanText.eq_def]
  simp [(by decide : Ascii.backslash ≠ Ascii.quote), hu, ht, hl, hf]

theorem scanText_pair {b₁ b₂ b₃ b₄ b₅ b₆ : UInt8} {m : Nat} (hu : codeUnit? h₁ h₂ h₃ h₄ = some n)
    (ht : ¬ isTrail n = true) (hl : isLead n = true)
    (hm : trailingHalf (b₁ :: b₂ :: b₃ :: b₄ :: b₅ :: b₆ :: r) = .ok m) :
    scanText (Ascii.backslash :: Ascii.lowerU :: h₁ :: h₂ :: h₃ :: h₄ ::
      b₁ :: b₂ :: b₃ :: b₄ :: b₅ :: b₆ :: r) =
        (scanText r).prepend (encodeCodePoint (0x10000 + (n - 0xd800) * 1024 + (m - 0xdc00))) := by
  rw [scanText.eq_def]
  simp [(by decide : Ascii.backslash ≠ Ascii.quote), hu, ht, hl, hm]

theorem exists_of_trailingHalf {m : Nat} (h : trailingHalf r = .ok m) :
    ∃ b₁ b₂ b₃ b₄ b₅ b₆ q, r = b₁ :: b₂ :: b₃ :: b₄ :: b₅ :: b₆ :: q := by
  match r with
  | b₁ :: b₂ :: b₃ :: b₄ :: b₅ :: b₆ :: q => exact ⟨b₁, b₂, b₃, b₄, b₅, b₆, q, rfl⟩
  | [] => cases h
  | [b] | [b, _] | [b, _, _] | [b, _, _, _] | [b, _, _, _, _] =>
    simp only [trailingHalf] at h
    split_ifs at h

theorem trailingHalf_append (h : (scanText r).isClosed = true) (x : Bytes) :
    trailingHalf (r ++ x) = trailingHalf r := by
  cases r with
  | nil => cases h
  | cons b r =>
    by_cases hb : b = Ascii.backslash
    · subst hb
      cases r with
      | nil => cases h
      | cons u r =>
        by_cases hu : u = Ascii.lowerU
        · subst hu
          match r, h with
          | h₁ :: h₂ :: h₃ :: h₄ :: r, _ => simp [trailingHalf]
        · simp [trailingHalf, hu]
    · simp [trailingHalf, hb]

end Unit

theorem scanText_append {b : Bytes} (h : (scanText b).isClosed = true) (x : Bytes) :
    scanText (b ++ x) = (scanText b).followed x := by
  fun_induction scanText b with
  | case1 => cases h
  | case2 r => exact scanText_quote _
  | case3 => cases h
  | case4 => cases h
  | case5 h₁ h₂ h₃ h₄ r n hu ht _ ih =>
    rw [TextScan.isClosed_spoil] at h
    simp only [List.cons_append]
    rw [scanText_trail hu ht, ih h, TextScan.followed_spoil]
  | case6 h₁ h₂ h₃ h₄ n hu ht hl m b₁ b₂ b₃ b₄ b₅ b₆ r hm _ ih =>
    simp only [hm, TextScan.isClosed_prepend] at h ⊢
    have hm' : trailingHalf (b₁ :: b₂ :: b₃ :: b₄ :: b₅ :: b₆ :: (r ++ x)) = .ok m := hm
    simp only [List.cons_append]
    rw [scanText_pair hu ht hl hm', ih h, TextScan.followed_prepend]
  | case7 h₁ h₂ h₃ h₄ n _ _ _ m r hr hm =>
    obtain ⟨b₁, b₂, b₃, b₄, b₅, b₆, q, rfl⟩ := exists_of_trailingHalf hm
    exact absurd rfl (hr b₁ b₂ b₃ b₄ b₅ b₆ q)
  -- a lone half stays alone, since the text that is closed ends before what is behind it
  | case8 h₁ h₂ h₃ h₄ n hu ht hl f r hf _ ih =>
    simp only [hf, TextScan.isClosed_spoil] at h ⊢
    simp only [List.cons_append]
    rw [scanText_lone hu ht hl ((trailingHalf_append h x).trans hf), ih h, TextScan.followed_spoil]
  | case9 h₁ h₂ h₃ h₄ r n hu ht hl _ ih =>
    rw [TextScan.isClosed_prepend] at h
    simp only [List.cons_append]
    rw [scanText_single hu ht hl, ih h, TextScan.followed_prepend]
  | case10 => cases h
  | case11 e r he c hc _ ih =>
    rw [TextScan.isClosed_prepend] at h
    simp only [List.cons_append]
    rw [scanText_unescape hc, ih h, TextScan.followed_prepend]
  | case12 => cases h
  | case13 => cases h
  | case14 b r hq hb hs ih =>
    rw [TextScan.isClosed_prepend] at h
    rw [List.cons_append, scanText_plain hq hb hs, ih h, TextScan.followed_prepend]

theorem length_left_scanText (b : Bytes) : (scanText b).left.length ≤ b.length := by
  fun_induction scanText b with
  | case1 | case3 | case4 | case10 | case12 | case13 => exact Nat.zero_le _
  | case2 r => exact Nat.le_succ _
  | case5 h₁ h₂ h₃ h₄ r n hu ht _ ih =>
    rw [TextScan.left_spoil]
    simp only [List.length_cons]
    omega
  | case6 h₁ h₂ h₃ h₄ n hu ht hl m b₁ b₂ b₃ b₄ b₅ b₆ r hm _ ih =>
    simp only [hm, TextScan.left_prepend, List.length_cons]
    omega
  | case7 h₁ h₂ h₃ h₄ n _ _ _ m r hr hm =>
    obtain ⟨b₁, b₂, b₃, b₄, b₅, b₆, q, rfl⟩ := exists_of_trailingHalf hm
    exact absurd rfl (hr b₁ b₂ b₃ b₄ b₅ b₆ q)
  | case8 h₁ h₂ h₃ h₄ n hu ht hl f r hf _ ih =>
    simp only [hf, TextScan.left_spoil, List.length_cons]
    omega
  | case9 h₁ h₂ h₃ h₄ r n hu ht hl _ ih =>
    rw [TextScan.left_prepend]
    simp only [List.length_cons]
    omega
  | case11 e r he c hc _ ih =>
    rw [TextScan.left_prepend]
    simp only [List.length_cons]
    omega
  | case14 b r hq hb hs ih =>
    rw [TextScan.left_prepend]
    simp only [List.length_cons]
    omega

def Token.isFinished : Token → Bool
  | .brokenText _ _ | .broken _ => false
  | _ => true

/-- The scan takes a token from the front of `b`, and would do so whatever stood behind it. -/
structure Takes (scan : Bytes → Token × Bytes) (b : Bytes) : Prop where
  followed : ∀ x, Ends x → scan (b ++ x) = ((scan b).1, (scan b).2 ++ x)
  length_le : (scan b).2.length ≤ b.length

theorem takes_text {b : Bytes} (h : (textToken (scanText b)).1.isFinished = true) :
    Takes (fun b => textToken (scanText b)) b := by
  have hclosed : (scanText b).isClosed = true := by
    cases hs : scanText b with
    | closed c r => rfl
    | broken kept skipped =>
      rw [hs] at h
      cases h
  constructor
  · intro x _
    rw [scanText_append hclosed]
    rcases hs : scanText b with ⟨_ | c, r⟩ | _
    · rfl
    · simp only [TextScan.followed, textToken]
      cases c.toString? <;> rfl
    · rw [hs] at hclosed
      cases hclosed
  · have hleft := length_left_scanText b
    rcases hs : scanText b with ⟨_ | c, r⟩ | _
    · rwa [hs] at hleft
    · rw [hs] at hleft
      simp only [textToken]
      cases c.toString? <;> exact hleft
    · rw [hs] at hclosed
      cases hclosed

theorem scanWord_eq (t : Token) (word b : Bytes) :
    (∃ r, b = word ++ r ∧ scanWord t word b = (t, r)) ∨
      ∃ k, scanWord t word b = (.broken k, []) := by
  induction word generalizing b with
  | nil => exact Or.inl ⟨b, rfl, rfl⟩
  | cons x word ih =>
    cases b with
    | nil => exact Or.inr ⟨_, rfl⟩
    | cons y b =>
      by_cases hxy : x = y
      · subst hxy
        rw [scanWord, if_pos rfl]
        rcases ih b with ⟨r, rfl, hr⟩ | hk
        · exact Or.inl ⟨r, rfl, hr⟩
        · exact Or.inr hk
      · exact Or.inr ⟨_, if_neg hxy⟩

theorem scanWord_append (t : Token) (word r : Bytes) : scanWord t word (word ++ r) = (t, r) := by
  induction word with
  | nil => rfl
  | cons x word ih =>
    rw [List.cons_append, scanWord, if_pos rfl, ih]

theorem takes_word {t : Token} {word b : Bytes} (h : (scanWord t word b).1.isFinished = true) :
    Takes (scanWord t word) b := by
  rcases scanWord_eq t word b with ⟨r, rfl, hr⟩ | ⟨k, hk⟩
  · constructor
    · intro x _
      rw [List.append_assoc, scanWord_append, hr]
    · rw [hr, List.length_append]
      exact Nat.le_add_left _ _
  · rw [hk] at h
    cases h

def Counted (b : Bytes) (s : Token × Bytes) : Prop :=
  (∃ n q, s = (.number n, q) ∧ q.length ≤ b.length) ∨ ∃ k, s = (.broken k, [])

theorem Counted.mono {b c : Bytes} {s : Token × Bytes} (h : Counted b s)
    (hl : b.length ≤ c.length) : Counted c s := by
  rcases h with ⟨n, q, hs, hq⟩ | hk
  · exact Or.inl ⟨n, q, hs, hq.trans hl⟩
  · exact Or.inr hk

theorem counted_missingDigit (b rest : Bytes) : Counted b (missingDigit rest) := Or.inr ⟨_, rfl⟩

theorem counted_scanExponent (negative : Bool) (whole fraction b : Bytes) :
    Counted b (scanExponent negative whole fraction b) := by
  cases b with
  | nil => exact Or.inl ⟨_, _, rfl, Nat.le_refl _⟩
  | cons e r =>
    by_cases he : (e = Ascii.lowerE || e = Ascii.upperE) = true
    · have hsign (c : Prop) [Decidable c] : (if c then r.drop 1 else r).length ≤ r.length := by
        split_ifs
        · exact (List.drop_suffix 1 r).length_le
        · exact Nat.le_refl _
      rw [scanExponent, if_pos he]
      dsimp only
      generalize hq : (if (r.head? = some Ascii.minus || r.head? = some Ascii.plus) = true
        then r.drop 1 else r) = q
      have hlen : q.length ≤ r.length := hq ▸ hsign _
      have hle := (List.dropWhile_suffix Bytes.isDigit (l := q)).length_le
      by_cases hd : (q.takeWhile Bytes.isDigit).isEmpty = true
      · rw [if_pos hd]
        exact counted_missingDigit _ _
      · rw [if_neg hd]
        exact Or.inl ⟨_, _, rfl, by rw [List.length_cons]; omega⟩
    · rw [scanExponent, if_neg he]
      exact Or.inl ⟨_, _, rfl, Nat.le_refl _⟩

theorem counted_scanFraction (negative : Bool) (whole b : Bytes) :
    Counted b (scanFraction negative whole b) := by
  unfold scanFraction
  split
  · exact Or.inr ⟨_, rfl⟩
  · cases b with
    | nil => exact counted_scanExponent negative whole [] []
    | cons p r =>
      have hle := (List.dropWhile_suffix Bytes.isDigit (l := r)).length_le
      dsimp only
      split_ifs
      · exact counted_missingDigit _ _
      · exact (counted_scanExponent _ _ _ _).mono (by rw [List.length_cons]; omega)
      · exact counted_scanExponent _ _ _ _

theorem counted_scanNumber (c : UInt8) (r : Bytes) : Counted r (scanNumber (c :: r)) := by
  rw [scanNumber_eq]
  split_ifs with he
  · exact counted_missingDigit _ _
  · refine (counted_scanFraction _ _ _).mono ?_
    have hlen := congrArg List.length (List.takeWhile_append_dropWhile (p := Bytes.isDigit) (l := unsigned (c :: r)))
    have hpos : 0 < ((unsigned (c :: r)).takeWhile Bytes.isDigit).length :=
      List.length_pos_iff.mpr (by simpa using he)
    have hun : (unsigned (c :: r)).length ≤ r.length + 1 := by
      unfold unsigned
      split_ifs
      · exact Nat.le_succ _
      · exact Nat.le_refl _
    rw [List.length_append] at hlen
    omega

theorem takes_number {c : UInt8} {r : Bytes} (h : (scanNumber (c :: r)).1.isFinished = true) :
    Takes (fun r => scanNumber (c :: r)) r := by
  rcases counted_scanNumber c r with ⟨n, q, hn, hq⟩ | ⟨k, hk⟩
  · constructor
    · intro x hx
      have := scanNumber_append hn hx
      rw [hn]
      exact this
    · rw [hn]
      exact hq
  · rw [hk] at h
    cases h

def tokenFrom (c : UInt8) : Bytes → Token × Bytes :=
  if c = Ascii.openBracket then fun r => (.openBracket, r)
  else if c = Ascii.closeBracket then fun r => (.closeBracket, r)
  else if c = Ascii.openBrace then fun r => (.openBrace, r)
  else if c = Ascii.closeBrace then fun r => (.closeBrace, r)
  else if c = Ascii.colon then fun r => (.colon, r)
  else if c = Ascii.comma then fun r => (.comma, r)
  else if c = Ascii.quote then fun r => textToken (scanText r)
  else if c = Ascii.minus || Bytes.isDigit c then fun r => scanNumber (c :: r)
  else if c = Ascii.lowerN then scanWord .null (nullWord.drop 1)
  else if c = Ascii.lowerT then scanWord (.bool true) (trueWord.drop 1)
  else if c = Ascii.lowerF then scanWord (.bool false) (falseWord.drop 1)
  else fun _ => (.broken .malformed, [])

theorem nextToken?_eq (b : Bytes) :
    nextToken? b =
      match b.dropWhile isSpace with
      | [] => none
      | c :: r => some (tokenFrom c r) := by
  unfold nextToken?
  cases b.dropWhile isSpace with
  | nil => rfl
  | cons c r => simp only [tokenFrom, ite_apply]

theorem takes_here (t : Token) (r : Bytes) : Takes (fun r => (t, r)) r :=
  ⟨fun _ _ => rfl, Nat.le_refl _⟩

theorem takes_ite {p : Prop} [Decidable p] {f g : Bytes → Token × Bytes} {r : Bytes}
    (hf : (f r).1.isFinished = true → Takes f r) (hg : (g r).1.isFinished = true → Takes g r) :
    ((if p then f else g) r).1.isFinished = true → Takes (if p then f else g) r := by
  split_ifs
  · exact hf
  · exact hg

theorem takes_tokenFrom {c : UInt8} {r : Bytes} :
    (tokenFrom c r).1.isFinished = true → Takes (tokenFrom c) r := by
  unfold tokenFrom
  apply takes_ite fun _ => takes_here _ r
  apply takes_ite fun _ => takes_here _ r
  apply takes_ite fun _ => takes_here _ r
  apply takes_ite fun _ => takes_here _ r
  apply takes_ite fun _ => takes_here _ r
  apply takes_ite fun _ => takes_here _ r
  apply takes_ite takes_text
  apply takes_ite takes_number
  apply takes_ite takes_word
  apply takes_ite takes_word
  apply takes_ite takes_word
  exact nofun

theorem nextToken?_append {b r x : Bytes} {t : Token} (h : nextToken? b = some (t, r))
    (ht : t.isFinished = true) (hx : Ends x) :
    nextToken? (b ++ x) = some (t, r ++ x) ∧ r.length < b.length := by
  rw [nextToken?_eq] at h ⊢
  rw [List.dropWhile_append]
  cases hb : b.dropWhile isSpace with
  | nil =>
    rw [hb] at h
    cases h
  | cons c q =>
    have hle := (List.dropWhile_suffix isSpace (l := b)).length_le
    rw [hb] at h
    have hc : tokenFrom c q = (t, r) := Option.some.inj h
    have htakes : Takes (tokenFrom c) q := takes_tokenFrom (by rwa [hc])
    have hlen := htakes.length_le
    rw [hb, List.length_cons] at hle
    rw [hc] at hlen
    refine ⟨?_, Nat.lt_of_le_of_lt hlen hle⟩
    have hx := htakes.followed x hx
    rw [hc] at hx
    exact congrArg some hx

theorem Lexes.refl (b : Bytes) : Lexes b [] b := fun fuel hf => ⟨fuel, hf, rfl⟩

theorem Lexes.blank {w b r : Bytes} {ts : List Token} (hw : w.dropWhile isSpace = [])
    (h : Lexes b ts r) : Lexes (w ++ b) ts r := by
  have hnext : nextToken? (w ++ b) = nextToken? b := by
    rw [nextToken?_eq, nextToken?_eq, List.dropWhile_append, hw]
    rfl
  have htokens (fuel : Nat) : tokensUpTo fuel (w ++ b) = tokensUpTo fuel b := by
    cases fuel with
    | zero => rfl
    | succ fuel => rw [tokensUpTo, tokensUpTo, hnext]
  intro fuel hf
  rw [List.length_append] at hf
  rw [htokens]
  exact h fuel (by omega)

theorem lexes_append {b x : Bytes} {fuel : Nat} (hb : b.length ≤ fuel)
    (hf : ∀ t ∈ tokensUpTo fuel b, t.isFinished = true) (hx : Ends x) :
    Lexes (b ++ x) (tokensUpTo fuel b) x := by
  induction fuel generalizing b with
  | zero =>
    obtain rfl : b = [] := List.length_eq_zero_iff.mp (Nat.le_zero.mp hb)
    exact .refl x
  | succ fuel ih =>
    rw [tokensUpTo] at hf ⊢
    cases hn : nextToken? b with
    | none =>
      have hblank : b.dropWhile isSpace = [] := by
        rw [nextToken?_eq] at hn
        cases hd : b.dropWhile isSpace with
        | nil => rfl
        | cons c r =>
          rw [hd] at hn
          cases hn
      exact .blank hblank (.refl x)
    | some p =>
      obtain ⟨t, r⟩ := p
      rw [hn] at hf
      obtain ⟨ht, hr⟩ := List.forall_mem_cons.mp hf
      obtain ⟨hnext, hlen⟩ := nextToken?_append hn ht hx
      have hone : Lexes (b ++ x) [t] (r ++ x) :=
        .one hnext (by rw [List.length_append, List.length_append]; omega)
      exact hone.trans (ih (by omega) hr)

namespace Spelled

theorem isFinished_of_skip_ofToken {t : Token} (h : skip (ofToken t) = .ok ()) :
    t.isFinished = true := by
  cases t <;> first | rfl | cases h

theorem valueUpTo_openBrace {t : Token} (h : t ≠ .closeBrace) (fuel : Nat) (ts : List Token) :
    valueUpTo (fuel + 1) (.openBrace :: t :: ts) =
      (.object (membersUpTo fuel (t :: ts)).1 (membersUpTo fuel (t :: ts)).2.1,
        (membersUpTo fuel (t :: ts)).2.2) := by
  cases t with
  | closeBrace => exact absurd rfl h
  | _ => rfl

theorem andThen_eq_ok {ε : Type} {x y : Except ε Unit} :
    (x >>= fun _ => y) = .ok () ↔ x = .ok () ∧ y = .ok () := by
  rw [bind_eq_ok]
  constructor
  · rintro ⟨⟨⟩, hx, hy⟩
    exact ⟨hx, hy⟩
  · rintro ⟨hx, hy⟩
    exact ⟨(), hx, hy⟩

theorem endOf_eq_ok {cut : Option Fault} : endOf cut = .ok () ↔ cut = none := by
  cases cut <;> simp [endOf]

theorem skip_array_eq_ok {items : List Spelled} {cut : Option Fault} :
    skip (.array items cut) = .ok () ↔ skipItems items = .ok () ∧ cut = none := by
  rw [skip, andThen_eq_ok, endOf_eq_ok]

theorem skip_object_eq_ok {members : List (Name × Spelled)} {cut : Option Fault} :
    skip (.object members cut) = .ok () ↔ skipMembers members = .ok () ∧ cut = none := by
  rw [skip, andThen_eq_ok, endOf_eq_ok]

theorem skipItems_cons_eq_ok {v : Spelled} {r : List Spelled} :
    skipItems (v :: r) = .ok () ↔ skip v = .ok () ∧ skipItems r = .ok () := by
  rw [skipItems, andThen_eq_ok]

theorem skipMembers_cons_eq_ok {k : Name} {v : Spelled} {r : List (Name × Spelled)} :
    skipMembers ((k, v) :: r) = .ok () ↔
      (∀ kept skipped, k ≠ .missing kept skipped) ∧ skip v = .ok () ∧ skipMembers r = .ok () := by
  cases k with
  | missing kept skipped => simp [skipMembers]
  | text s => simp [skipMembers, andThen_eq_ok]
  | unreadable f => simp [skipMembers, andThen_eq_ok]

def FinishedUpTo (ts rest : List Token) : Prop :=
  ∃ used, ts = used ++ rest ∧ ∀ t ∈ used, t.isFinished = true

theorem FinishedUpTo.refl (ts : List Token) : FinishedUpTo ts ts := ⟨[], rfl, by simp⟩

theorem FinishedUpTo.cons {t : Token} {ts rest : List Token} (ht : t.isFinished = true)
    (h : FinishedUpTo ts rest) : FinishedUpTo (t :: ts) rest := by
  obtain ⟨used, rfl, hused⟩ := h
  exact ⟨t :: used, rfl, List.forall_mem_cons.mpr ⟨ht, hused⟩⟩

theorem FinishedUpTo.trans {ts us rest : List Token} (h : FinishedUpTo ts us)
    (h' : FinishedUpTo us rest) : FinishedUpTo ts rest := by
  obtain ⟨used, rfl, hused⟩ := h
  obtain ⟨used', rfl, hused'⟩ := h'
  exact ⟨used ++ used', by rw [List.append_assoc], List.forall_mem_append.mpr ⟨hused, hused'⟩⟩

mutual

theorem valueUpTo_append {fuel : Nat} {ts rest : List Token} {s : Spelled}
    (h : valueUpTo fuel ts = (s, rest)) (hs : skip s = .ok ()) :
    FinishedUpTo ts rest ∧ ∀ n us, valueUpTo (fuel + n) (ts ++ us) = (s, rest ++ us) := by
  cases fuel with
  | zero =>
    cases h
    cases hs
  | succ fuel =>
    match ts with
    | [] =>
      cases h
      cases hs
    | t :: ts =>
      cases t with
      | openBracket =>
        match ts with
        | [] =>
          cases h
          cases hs
        | t :: ts =>
          by_cases ht : t = .closeBracket
          · subst ht
            cases h
            refine ⟨.cons rfl (.cons rfl (.refl _)), fun n us => ?_⟩
            rw [Nat.add_right_comm]
            rfl
          · rcases hi : itemsUpTo fuel (t :: ts) with ⟨vs, cut, left⟩
            rw [valueUpTo_openBracket ht, hi] at h
            cases h
            obtain ⟨hskip, rfl⟩ := skip_array_eq_ok.mp hs
            obtain ⟨hfinished, hmore⟩ := itemsUpTo_append hi hskip rfl
            refine ⟨.cons rfl hfinished, fun n us => ?_⟩
            have hus := hmore n us
            rw [Nat.add_right_comm]
            rw [List.cons_append] at hus
            rw [List.cons_append, List.cons_append, valueUpTo_openBracket ht, hus]
      | openBrace =>
        match ts with
        | [] =>
          cases h
          cases hs
        | t :: ts =>
          by_cases ht : t = .closeBrace
          · subst ht
            cases h
            refine ⟨.cons rfl (.cons rfl (.refl _)), fun n us => ?_⟩
            rw [Nat.add_right_comm]
            rfl
          · rcases hm : membersUpTo fuel (t :: ts) with ⟨ms, cut, left⟩
            rw [valueUpTo_openBrace ht, hm] at h
            cases h
            obtain ⟨hskip, rfl⟩ := skip_object_eq_ok.mp hs
            obtain ⟨hfinished, hmore⟩ := membersUpTo_append hm hskip rfl
            refine ⟨.cons rfl hfinished, fun n us => ?_⟩
            have hus := hmore n us
            rw [Nat.add_right_comm]
            rw [List.cons_append] at hus
            rw [List.cons_append, List.cons_append, valueUpTo_openBrace ht, hus]
      | _ =>
        cases h
        refine ⟨.cons (isFinished_of_skip_ofToken hs) (.refl _), fun n us => ?_⟩
        rw [Nat.add_right_comm]
        rfl
termination_by fuel

theorem itemsUpTo_append {fuel : Nat} {ts rest : List Token} {vs : List Spelled}
    {cut : Option Fault} (h : itemsUpTo fuel ts = (vs, cut, rest)) (hs : skipItems vs = .ok ())
    (hc : cut = none) :
    FinishedUpTo ts rest ∧ ∀ n us, itemsUpTo (fuel + n) (ts ++ us) = (vs, none, rest ++ us) := by
  cases fuel with
  | zero =>
    cases h
    cases hs
  | succ fuel =>
    rcases hv : valueUpTo fuel ts with ⟨v, left⟩
    match left with
    | .closeBracket :: left =>
      rw [itemsUpTo_closeBracket hv] at h
      cases h
      obtain ⟨hfinished, hmore⟩ := valueUpTo_append hv (skipItems_cons_eq_ok.mp hs).1
      refine ⟨hfinished.trans (.cons rfl (.refl _)), fun n us => ?_⟩
      rw [Nat.add_right_comm]
      exact itemsUpTo_closeBracket (hmore n us)
    | .comma :: left =>
      rcases hi : itemsUpTo fuel left with ⟨vs', cut', rest'⟩
      rw [itemsUpTo_comma hv hi] at h
      cases h
      obtain ⟨hskip, hskips⟩ := skipItems_cons_eq_ok.mp hs
      obtain ⟨hfinished, hmore⟩ := valueUpTo_append hv hskip
      obtain ⟨hfinished', hmore'⟩ := itemsUpTo_append hi hskips hc
      refine ⟨hfinished.trans (.cons rfl hfinished'), fun n us => ?_⟩
      rw [Nat.add_right_comm]
      exact itemsUpTo_comma (hmore n us) (hmore' n us)
    | [] | .openBracket :: _ | .openBrace :: _ | .closeBrace :: _ | .colon :: _ | .null :: _
    | .bool _ :: _ | .number _ :: _ | .text _ :: _ | .brokenText _ _ :: _ | .broken _ :: _ =>
      rw [itemsUpTo, hv] at h
      cases h
      cases hc
termination_by fuel

theorem membersUpTo_append {fuel : Nat} {ts rest : List Token} {ms : List (Name × Spelled)}
    {cut : Option Fault} (h : membersUpTo fuel ts = (ms, cut, rest)) (hs : skipMembers ms = .ok ())
    (hc : cut = none) :
    FinishedUpTo ts rest ∧ ∀ n us, membersUpTo (fuel + n) (ts ++ us) = (ms, none, rest ++ us) := by
  cases fuel with
  | zero =>
    cases h
    cases hs
  | succ fuel =>
    match ts with
    | .text k :: .colon :: ts =>
      rcases hv : valueUpTo fuel ts with ⟨v, left⟩
      match left with
      | .closeBrace :: left =>
        rw [membersUpTo_closeBrace k hv] at h
        cases h
        obtain ⟨-, hskip, -⟩ := skipMembers_cons_eq_ok.mp hs
        obtain ⟨hfinished, hmore⟩ := valueUpTo_append hv hskip
        refine ⟨.cons rfl (.cons rfl (hfinished.trans (.cons rfl (.refl _)))), fun n us => ?_⟩
        rw [Nat.add_right_comm]
        exact membersUpTo_closeBrace k (hmore n us)
      | .comma :: left =>
        rcases hm : membersUpTo fuel left with ⟨ms', cut', rest'⟩
        rw [membersUpTo_comma k hv hm] at h
        cases h
        obtain ⟨-, hskip, hskips⟩ := skipMembers_cons_eq_ok.mp hs
        obtain ⟨hfinished, hmore⟩ := valueUpTo_append hv hskip
        obtain ⟨hfinished', hmore'⟩ := membersUpTo_append hm hskips hc
        refine ⟨.cons rfl (.cons rfl (hfinished.trans (.cons rfl hfinished'))), fun n us => ?_⟩
        rw [Nat.add_right_comm]
        exact membersUpTo_comma k (hmore n us) (hmore' n us)
      | [] | .openBracket :: _ | .closeBracket :: _ | .openBrace :: _ | .colon :: _ | .null :: _
      | .bool _ :: _ | .number _ :: _ | .text _ :: _ | .brokenText _ _ :: _ | .broken _ :: _ =>
        rw [membersUpTo, hv] at h
        cases h
        cases hc
    | .text k :: [] =>
      cases h
      cases (skipMembers_cons_eq_ok.mp hs).2.1
    | .text k :: .openBracket :: _ | .text k :: .closeBracket :: _ | .text k :: .openBrace :: _
    | .text k :: .closeBrace :: _ | .text k :: .comma :: _ | .text k :: .null :: _
    | .text k :: .bool _ :: _ | .text k :: .number _ :: _ | .text k :: .text _ :: _
    | .text k :: .brokenText _ _ :: _ | .text k :: .broken _ :: _ =>
      cases h
      cases (skipMembers_cons_eq_ok.mp hs).2.1
    | [] | .openBracket :: _ | .closeBracket :: _ | .openBrace :: _ | .closeBrace :: _ | .colon :: _
    | .comma :: _ | .null :: _ | .bool _ :: _ | .number _ :: _ | .brokenText _ _ :: _
    | .broken _ :: _ =>
      cases h
      cases hs
termination_by fuel

end

end Spelled

theorem decode_append {α : Type} {read : Spelled → Except Fault α} {b x : Bytes} {a : α}
    {us : List Token} (hread : ∀ s a, read s = .ok a → s.skip = .ok ())
    (h : decode read b = .ok a) (hx : Ends x) (hl : Lexes x us []) :
    decode read (b ++ x) = if us = [] then .ok a else .error .malformed := by
  rcases hp : Spelled.parse b with ⟨s, rest⟩
  rw [decode, hp] at h
  obtain ⟨a', hs, h⟩ := bind_eq_ok.mp h
  obtain rfl : rest = [] := by
    cases rest with
    | nil => rfl
    | cons t rest => cases h
  obtain rfl : a' = a := by cases h; rfl
  obtain ⟨⟨used, hused, hfinished⟩, hmore⟩ := Spelled.valueUpTo_append hp (hread s a' hs)
  have htokens : tokens (b ++ x) = tokens b ++ us := by
    have hb : Lexes (b ++ x) (tokens b) x := lexes_append (Nat.le_refl _) (by
      intro t ht
      change t ∈ tokens b at ht
      rw [hused, List.append_nil] at ht
      exact hfinished t ht) hx
    exact (hb.trans hl).tokens_eq
  -- the fuel is by the number of tokens, so that there is more of it than the document needs
  have hparse : Spelled.parse (b ++ x) = (s, us) := by
    have hfuel : 2 * (tokens b ++ us).length + 2 = (2 * (tokens b).length + 2) + 2 * us.length := by
      rw [List.length_append]
      omega
    rw [Spelled.parse, htokens, hfuel, hmore]
    rfl
  rw [decode, hparse]
  simp only [hs, bind, Except.bind]
  cases us <;> rfl

end Staging.Json
