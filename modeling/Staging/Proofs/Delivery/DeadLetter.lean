import Mathlib
import Staging.Delivery.DeadLetterFile
import Staging.Proofs.Base64
import Staging.Proofs.Lines
import Staging.Proofs.Json.Layouts
import Staging.Proofs.Snapshot.Canonical

namespace Staging.DeadLetter

open Json (Fault Spelled spell Lexes Reread)

def members (r : DeadLetter) : List (String × Json) :=
  [("destination", .text r.destination), ("exchange_id", .text r.exchangeId),
    ("snapshot_b64", .text r.snapshot), ("timestamp", .text r.timestamp)]

theorem read_spell (r : DeadLetter) : read (spell r.toJson) = .ok r := by
  have hjson : r.toJson = .object r.members := rfl
  have hnames : r.members.map (·.1) = fieldNames := rfl
  rw [read, hjson, Spelled.readRecord_spell hnames (by decide)]
  rfl

theorem reread_floats (r : DeadLetter) : Reread r.toJson.floats := by
  simp [toJson, Json.floats, Json.floatsMembers, Reread]

theorem lexes_compact (r : DeadLetter) : Lexes r.toJson.compact (Json.tokensOf r.toJson) [] :=
  Json.lexes_compact_all r.reread_floats

theorem tokensOf_toJson_ne_nil (r : DeadLetter) : Json.tokensOf r.toJson ≠ [] := List.cons_ne_nil _ _

theorem skip_of_readText {s : Spelled} {x : String} (h : s.readText = .ok x) : s.skip = .ok () := by
  cases s with
  | text t => rfl
  | number n => cases n <;> cases h
  | null | bool _ | array _ _ | object _ _ | broken _ => cases h

theorem skip_of_readField {d d' : Draft} {name : String} {s : Spelled}
    (h : readField d name s = .ok d') : s.skip = .ok () := by
  obtain ⟨x, hx, -⟩ := Json.bind_eq_ok.mp h
  exact skip_of_readText hx

theorem skipMembers_of_readFields {seen : List String} {d d' : Draft}
    {l : List (Json.Name × Spelled)} (h : Spelled.readFields fieldNames readField seen d l = .ok d') :
    Spelled.skipMembers l = .ok () := by
  induction l generalizing seen d with
  | nil => rfl
  | cons p r ih =>
    obtain ⟨k, v⟩ := p
    rw [Spelled.readFields] at h
    obtain ⟨name, hk, h⟩ := Json.bind_eq_ok.mp h
    have hname : ∀ kept skipped, k ≠ .missing kept skipped := by
      rintro kept skipped rfl
      cases hk
    split at h
    · split at h
      · cases h
      · obtain ⟨e, he, h⟩ := Json.bind_eq_ok.mp h
        exact Spelled.skipMembers_cons_eq_ok.mpr ⟨hname, skip_of_readField he, ih h⟩
    · obtain ⟨_, hv, h⟩ := Json.bind_eq_ok.mp h
      exact Spelled.skipMembers_cons_eq_ok.mpr ⟨hname, hv, ih h⟩

theorem skipItems_of_foldlM {l : List (String × Spelled)} {d d' : Draft}
    (h : l.foldlM (fun d p => readField d p.1 p.2) d = .ok d') :
    Spelled.skipItems (l.map (·.2)) = .ok () := by
  induction l generalizing d with
  | nil => rfl
  | cons p r ih =>
    rw [List.foldlM_cons] at h
    obtain ⟨e, he, h⟩ := Json.bind_eq_ok.mp h
    exact Spelled.skipItems_cons_eq_ok.mpr ⟨skip_of_readField he, ih h⟩

theorem skip_of_read {s : Spelled} {r : DeadLetter} (h : read s = .ok r) : s.skip = .ok () := by
  obtain ⟨d, hd, -⟩ := Json.bind_eq_ok.mp h
  cases s with
  | object members cut =>
    obtain ⟨e, he, hd⟩ := Json.bind_eq_ok.mp hd
    obtain ⟨⟨⟩, hc, -⟩ := Json.bind_eq_ok.mp hd
    exact Spelled.skip_object_eq_ok.mpr ⟨skipMembers_of_readFields he, Spelled.endOf_eq_ok.mp hc⟩
  | array items cut =>
    obtain ⟨e, he, hd⟩ := Json.bind_eq_ok.mp hd
    split at hd
    · cases hd
    · rename_i hlen
      obtain ⟨⟨⟩, hc, -⟩ := Json.bind_eq_ok.mp hd
      have hitems := skipItems_of_foldlM he
      rw [List.map_snd_zip (Nat.not_lt.mp hlen)] at hitems
      exact Spelled.skip_array_eq_ok.mpr ⟨hitems, Spelled.endOf_eq_ok.mp hc⟩
  | null | bool _ | text _ | number _ | broken _ => cases hd

theorem compact_eq (r : DeadLetter) :
    ∃ t, r.toJson.compact = Bytes.ofString ("\x7b" ++ t) ∧
      r.toJson.compact.getLast? = some Ascii.closeBrace := by
  have hopen : Bytes.ofString "\x7b" = [Ascii.openBrace] := by decide
  have hclose : Json.Plain [Ascii.closeBrace] := Json.plain_nil.cons rfl
  obtain ⟨t, ht⟩ := ((Json.plain_compactMembers r.members).append hclose).isText
  refine ⟨t, ?_, ?_⟩
  · rw [Bytes.ofString_append, hopen, ht]
    rfl
  · exact List.getLast?_concat

theorem lineFeed_notMem_compact (r : DeadLetter) : Ascii.lineFeed ∉ r.toJson.compact :=
  (Json.plain_compact r.toJson).lineFeed_notMem

theorem ends_compact (r : DeadLetter) : Json.Ends r.toJson.compact := by
  rintro c ⟨⟩
  rfl

theorem decode_compact (r : DeadLetter) : Json.decode read r.toJson.compact = .ok r :=
  (Json.decode_compact read r.reread_floats).trans r.read_spell

theorem decode_blank {α : Type} {read : Spelled → Except Fault α} {w b : Bytes} {ts : List Json.Token}
    (hw : w.dropWhile Json.isSpace = []) (h : Lexes b ts []) :
    Json.decode read (w ++ b) = Json.decode read b := by
  rw [Json.decode, Json.decode, Spelled.parse, Spelled.parse, (h.blank hw).tokens_eq, h.tokens_eq]

theorem decode_stray {w b : Bytes} {c : UInt8} {r : Bytes} (hw : w.dropWhile Json.isSpace = c :: r)
    (hc : (9 ≤ c ∧ c ≤ 13) ∨ c = 32 ∨ 128 ≤ c) :
    Json.decode read (w ++ b) = .error .malformed := by
  have hne {x : UInt8} (hx : 33 ≤ x ∧ x < 128) : c ≠ x := by
    rintro rfl
    simp only [UInt8.le_iff_toNat_le, UInt8.lt_iff_toNat_lt, ← UInt8.toNat_inj] at hc hx
    simp only [UInt8.reduceToNat] at hc hx
    omega
  have hdigit : Bytes.isDigit c = false := by
    by_contra h
    obtain ⟨hl, hu⟩ : Ascii.zero ≤ c ∧ c ≤ Ascii.nine := by simpa [Bytes.isDigit] using h
    have hlo : (33 : UInt8) ≤ Ascii.zero := by decide
    have hhi : Ascii.nine < (128 : UInt8) := by decide
    exact hne ⟨UInt8.le_trans hlo hl, UInt8.lt_of_le_of_lt hu hhi⟩ rfl
  have htoken : Json.tokenFrom c (r ++ b) = (.broken .malformed, []) := by
    simp [Json.tokenFrom, hdigit, hne (x := Ascii.openBracket) (by decide),
      hne (x := Ascii.closeBracket) (by decide), hne (x := Ascii.openBrace) (by decide),
      hne (x := Ascii.closeBrace) (by decide), hne (x := Ascii.colon) (by decide),
      hne (x := Ascii.comma) (by decide), hne (x := Ascii.quote) (by decide),
      hne (x := Ascii.minus) (by decide), hne (x := Ascii.lowerN) (by decide),
      hne (x := Ascii.lowerT) (by decide), hne (x := Ascii.lowerF) (by decide)]
  have hnext : Json.nextToken? (w ++ b) = some (.broken .malformed, []) := by
    rw [Json.nextToken?_eq, List.dropWhile_append, hw]
    exact congrArg some htoken
  have hpos : 0 < (w ++ b).length := by
    cases w with
    | nil => cases hw
    | cons x w => exact Nat.succ_pos _
  have htokens : Json.tokens (w ++ b) = [.broken .malformed] := (Lexes.one hnext hpos).tokens_eq
  rw [Json.decode, Spelled.parse, htokens]
  rfl

theorem exchange_of_ofExchange {destination : String} {e : Exchange} {now : Instant}
    {r : DeadLetter} (h : ofExchange destination e now = .ok r)
    (hx : Reread (Snapshot.toJson e).floats) :
    r.exchange = (Snapshot.reading true e).mapError .codec := by
  obtain ⟨b, hb, h⟩ := Json.bind_eq_ok.mp h
  cases h
  have hsnapshot : Bytes.ofString (String.ofList (Base64.encode b).asciiChars) = Base64.encode b :=
    Bytes.ofString_asciiChars fun _ => Base64.ascii_of_mem_encode
  simp only [exchange, hsnapshot, Base64.decode?_encode, Snapshot.unmarshal_marshal hb hx]

theorem fits_stamp {e : Exchange} (h : e.Fits) (attempt : UInt32) (maximum : Int32) :
    (e.stamp attempt maximum).Fits := by
  refine ⟨h.body, ?_, h.properties⟩
  intro p hp
  rcases Assoc.mem_insert hp with rfl | hp
  · trivial
  rcases Assoc.mem_insert hp with rfl | hp
  · trivial
  rcases Assoc.mem_insert hp with rfl | hp
  · trivial
  exact h.headers p hp

structure Records (r : DeadLetter) (destination : String) (e : Exchange) (now : Instant) : Prop where
  destination : r.destination = destination
  exchangeId : r.exchangeId = e.id
  timestamp : r.timestamp = now.renderWithOffset
  comesBack : Reread (Snapshot.toJson e).floats →
    r.exchange = (Snapshot.reading true e).mapError .codec
  recovered : ∀ b y attempt maximum, Snapshot.unmarshal b = .ok y → e = y.stamp attempt maximum →
    Reread (Snapshot.toJson e).floats → r.exchange = .ok e

theorem records_of_ofExchange {destination : String} {e : Exchange} {now : Instant}
    {r : DeadLetter} (h : ofExchange destination e now = .ok r) : r.Records destination e now := by
  have hback := exchange_of_ofExchange h
  obtain ⟨b, -, h⟩ := Json.bind_eq_ok.mp h
  cases h
  refine ⟨rfl, rfl, rfl, hback, ?_⟩
  rintro b y attempt maximum hy rfl hx
  have hfits := fits_stamp (Snapshot.writable_of_unmarshal hy).fits attempt maximum
  have hreading : Snapshot.reading true (y.stamp attempt maximum) = .ok (y.stamp attempt maximum) :=
    if_pos hfits
  rw [hback hx, hreading]
  rfl

theorem ofLine_of_text {l : Bytes} {s : String} (hl : Bytes.ofString s = l) :
    ofLine l =
      if Text.trim s = "" then .ok none
      else ((Json.decode read l).map some).mapError .json := by
  subst hl
  unfold ofLine
  simp only [Bytes.toString?_ofString]
  cases Json.decode read (Bytes.ofString s) <;> rfl

theorem exists_text_of_ofLine {l : Bytes} {o : Option DeadLetter} (h : ofLine l = .ok o) :
    ∃ s, Bytes.ofString s = l := by
  unfold ofLine at h
  split at h
  · cases h
  · rename_i s hs
    exact ⟨s, Bytes.ofString_of_toString? hs⟩

theorem ofLine_append_compact {w : Bytes} {s : String} (hw : Bytes.ofString s = w)
    (r : DeadLetter) :
    ofLine (w ++ r.toJson.compact) =
      ((Json.decode read (w ++ r.toJson.compact)).map some).mapError .json := by
  obtain ⟨t, ht, -⟩ := r.compact_eq
  have htext : Bytes.ofString (s ++ ("\x7b" ++ t)) = w ++ r.toJson.compact := by
    rw [Bytes.ofString_append, hw, ht]
  have hbrace : ¬ Text.trim (s ++ ("\x7b" ++ t)) = "" := by
    intro h
    have := Text.trim_eq_empty_iff.mp h '\x7b' (by simp)
    cases this
  rw [ofLine_of_text htext, if_neg hbrace]

theorem ofLine_append {w : Bytes} (hw : w = [] ∨ ∃ o, ofLine w = .ok o) (r : DeadLetter) :
    ofLine (w ++ r.toJson.compact) =
      if ∀ c ∈ w, Json.isSpace c = true then .ok (some r) else .error (.json .malformed) := by
  obtain ⟨s, hs⟩ : ∃ s, Bytes.ofString s = w := by
    rcases hw with rfl | ⟨o, ho⟩
    · exact Bytes.isText_nil
    · exact exists_text_of_ofLine ho
  rw [ofLine_append_compact hs]
  by_cases hblank : ∀ c ∈ w, Json.isSpace c = true
  · rw [if_pos hblank, decode_blank (List.dropWhile_eq_nil_iff.mpr hblank) r.lexes_compact,
      decode_compact]
    rfl
  · rw [if_neg hblank]
    have hmalformed : Json.decode read (w ++ r.toJson.compact) = .error .malformed := by
      rcases hw with rfl | ⟨o, ho⟩
      · exact absurd (by simp) hblank
      rw [ofLine_of_text hs] at ho
      -- the reader skips white space that JSON does not know; what it does not skip is a record
      split at ho
      · rename_i htrim
        cases hd : w.dropWhile Json.isSpace with
        | nil => exact absurd (List.dropWhile_eq_nil_iff.mp hd) hblank
        | cons c q =>
          have hc : c ∈ Bytes.ofString s := by
            rw [hs]
            exact (List.dropWhile_suffix _).subset (hd ▸ List.mem_cons_self)
          exact decode_stray hd (Text.mem_ofString_of_trim_eq_empty htrim hc)
      · cases hd : Json.decode read w with
        | error f =>
          rw [hd] at ho
          cases ho
        | ok r' =>
          rw [Json.decode_append (fun _ _ => skip_of_read) hd r.ends_compact r.lexes_compact,
            if_neg r.tokensOf_toJson_ne_nil]
    rw [hmalformed]
    rfl

theorem ofLine_of_blank {w : Bytes} {o : Option DeadLetter} (hw : ∀ c ∈ w, Json.isSpace c = true)
    (h : ofLine w = .ok o) : o = none := by
  obtain ⟨s, hs⟩ := exists_text_of_ofLine h
  rw [ofLine_of_text hs] at h
  split at h
  · cases h
    rfl
  · have htokens : Json.tokens w = [] := by
      have hlexes := (Lexes.refl []).blank (List.dropWhile_eq_nil_iff.mpr hw)
      rw [List.append_nil] at hlexes
      exact hlexes.tokens_eq
    rw [Json.decode, Spelled.parse, htokens] at h
    cases h

theorem ofText_eq_ok {b : Bytes} {rs : List DeadLetter} :
    ofText b = .ok rs ↔ ∃ os, b.lines.mapM ofLine = .ok os ∧ os.filterMap id = rs := by
  rw [ofText, Json.bind_eq_ok]
  simp [pure, Except.pure]

theorem mapM_append_eq {l m : List Bytes} :
    (l ++ m).mapM ofLine = (l.mapM ofLine).bind fun a => (m.mapM ofLine).map fun b => a ++ b := by
  rw [List.mapM_append]
  cases l.mapM ofLine with
  | error e => rfl
  | ok a => cases m.mapM ofLine <;> rfl

theorem unfinished_of_ofText {b : Bytes} {rs : List DeadLetter} (h : ofText b = .ok rs) :
    ∃ os, b.finished.lines.mapM ofLine = .ok os ∧
      (b.unfinished = [] ∧ os.filterMap id = rs ∨
        ∃ o, ofLine b.unfinished = .ok o ∧ os.filterMap id ++ o.toList = rs) := by
  obtain ⟨os, hos, rfl⟩ := ofText_eq_ok.mp h
  rw [Bytes.lines_eq, mapM_append_eq] at hos
  cases hf : b.finished.lines.mapM ofLine with
  | error e =>
    rw [hf] at hos
    cases hos
  | ok os' =>
    rw [hf] at hos
    refine ⟨os', rfl, ?_⟩
    split_ifs at hos with hu
    · cases hos
      exact Or.inl ⟨hu, by simp⟩
    · cases ho : ofLine b.unfinished with
      | error e =>
        rw [List.mapM_cons, ho] at hos
        cases hos
      | ok o =>
        rw [List.mapM_cons, ho] at hos
        cases hos
        refine Or.inr ⟨o, rfl, ?_⟩
        rw [List.filterMap_append]
        cases o <;> rfl

theorem lines_append_line (b : Bytes) (r : DeadLetter) :
    (b ++ r.line).lines = b.finished.lines ++ [b.unfinished ++ r.toJson.compact] := by
  obtain ⟨t, -, hlast⟩ := r.compact_eq
  apply Bytes.lines_append_line _ r.lineFeed_notMem_compact
  · intro h
    rw [h] at hlast
    cases hlast
  · rw [hlast]
    decide

theorem unfinished_append_line (b : Bytes) (r : DeadLetter) : (b ++ r.line).unfinished = [] := by
  rw [line, ← List.append_assoc]
  exact Bytes.unfinished_append_lineFeed _

theorem ofText_append_line {b : Bytes} {rs : List DeadLetter} (h : ofText b = .ok rs)
    (r : DeadLetter) :
    ofText (b ++ r.line) =
      if ∀ c ∈ b.unfinished, Json.isSpace c = true then .ok (rs ++ [r])
      else .error (.json .malformed) := by
  obtain ⟨os, hos, hlast⟩ := unfinished_of_ofText h
  have haccepted : b.unfinished = [] ∨ ∃ o, ofLine b.unfinished = .ok o := by
    rcases hlast with ⟨hu, -⟩ | ⟨o, ho, -⟩
    · exact Or.inl hu
    · exact Or.inr ⟨o, ho⟩
  rw [ofText, lines_append_line, mapM_append_eq, hos, List.mapM_cons, ofLine_append haccepted]
  split_ifs with hblank
  · have hrs : os.filterMap id = rs := by
      rcases hlast with ⟨-, hrs⟩ | ⟨o, ho, hrs⟩
      · exact hrs
      · rwa [ofLine_of_blank hblank ho, Option.toList_none, List.append_nil] at hrs
    rw [← hrs]
    change Except.ok ((os ++ [some r]).filterMap id) = _
    rw [List.filterMap_append]
    rfl
  · rfl

theorem ofText_append_error {b : Bytes} {e : DeliveryError} (hu : b.unfinished = [])
    (h : ofText b = .error e) (q : Bytes) : ofText (b ++ q) = .error e := by
  have hb : b.finished = b := by
    have := b.finished_append_unfinished
    rwa [hu, List.append_nil] at this
  have hlines : (b ++ q).lines = b.lines ++ q.lines := by
    have := Bytes.lines_finished_append b q
    rwa [hb] at this
  rw [ofText] at h ⊢
  rw [hlines, mapM_append_eq]
  cases hm : b.lines.mapM ofLine with
  | error f =>
    rw [hm] at h
    exact h
  | ok os =>
    rw [hm] at h
    cases h

theorem ofText_append_lines_of_finished {b : Bytes} {rs : List DeadLetter} (h : ofText b = .ok rs)
    (hu : b.unfinished = []) (more : List DeadLetter) :
    ofText (b ++ more.flatMap line) = .ok (rs ++ more) := by
  induction more generalizing b rs with
  | nil => rw [List.flatMap_nil, List.append_nil, List.append_nil, h]
  | cons r more ih =>
    have hr := ofText_append_line h r
    rw [if_pos (by simp [hu])] at hr
    rw [List.flatMap_cons, ← List.append_assoc, ih hr (unfinished_append_line b r),
      List.append_assoc, List.singleton_append]

theorem ofText_append_lines {b : Bytes} {rs : List DeadLetter} (h : ofText b = .ok rs)
    (more : List DeadLetter) :
    ofText (b ++ more.flatMap line) =
      if more = [] ∨ ∀ c ∈ b.unfinished, Json.isSpace c = true then .ok (rs ++ more)
      else .error (.json .malformed) := by
  cases more with
  | nil => rw [List.flatMap_nil, List.append_nil, List.append_nil, if_pos (Or.inl rfl), h]
  | cons r more =>
    have hr := ofText_append_line h r
    have hu := unfinished_append_line b r
    rw [List.flatMap_cons, ← List.append_assoc]
    by_cases hblank : ∀ c ∈ b.unfinished, Json.isSpace c = true
    · rw [if_pos hblank] at hr
      rw [if_pos (Or.inr hblank), ofText_append_lines_of_finished hr hu, List.append_assoc,
        List.singleton_append]
    · rw [if_neg hblank] at hr
      rw [if_neg (by simp [hblank]), ofText_append_error hu hr]

end Staging.DeadLetter
