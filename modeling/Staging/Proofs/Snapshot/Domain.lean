import Mathlib
import Staging.Proofs.Json.Depth
import Staging.Proofs.Snapshot

namespace Staging

open Json (Reread)

namespace Headers

structure FirstUnprintable (h : Headers) (name : String) (x : Binary64) : Prop where
  stands : h.get? name = some (.float x)
  notFinite : x.isFinite = false
  before : ∀ other v, other < name → h.get? other = some v → v.Printable

theorem nonFinite?_eq_some_iff {h : Headers} {name : String} {x : Binary64} :
    Snapshot.nonFinite? h = some (name, x) ↔ h.FirstUnprintable name x := by
  rw [nonFinite?_eq, List.findSome?_eq_some_iff]
  constructor
  · rintro ⟨l, p, r, he, hp, hl⟩
    obtain ⟨rfl, hx⟩ := unprintable?_eq_some_iff.mp hp
    refine ⟨SortedMap.mem_entries.mp (by simp [he]), hx, ?_⟩
    intro other v hlt hv
    have hmem : (other, v) ∈ l := (SortedMap.mem_before he).mpr ⟨SortedMap.mem_entries.mpr hv, hlt⟩
    exact unprintable?_eq_none_iff.mp (hl _ hmem)
  · intro hf
    obtain ⟨l, r, he⟩ := List.append_of_mem (SortedMap.mem_entries.mpr hf.stands)
    refine ⟨l, _, r, he, unprintable?_eq_some_iff.mpr ⟨rfl, hf.notFinite⟩, ?_⟩
    intro p hp
    obtain ⟨hm, hlt⟩ := (SortedMap.mem_before he).mp hp
    exact unprintable?_eq_none_iff.mpr (hf.before p.1 p.2 hlt (SortedMap.mem_entries.mp hm))

theorem nonFinite?_isSome_iff {h : Headers} :
    (Snapshot.nonFinite? h).isSome = true ↔
      ∃ name x, h.get? name = some (.float x) ∧ x.isFinite = false := by
  constructor
  · intro hs
    obtain ⟨⟨name, x⟩, hf⟩ := Option.isSome_iff_exists.mp hs
    have hf := nonFinite?_eq_some_iff.mp hf
    exact ⟨name, x, hf.stands, hf.notFinite⟩
  · rintro ⟨name, x, hv, hx⟩
    by_contra hn
    have hall := nonFinite?_eq_none_iff.mp (Option.not_isSome_iff_eq_none.mp hn)
    have hfin : x.isFinite = true := hall (name, .float x) (SortedMap.mem_entries.mpr hv)
    rw [hx] at hfin
    cases hfin

theorem findSome?_filter {α β : Type} {f : α → Option β} {q : α → Bool}
    (h : ∀ a, q a = false → f a = none) (l : List α) : (l.filter q).findSome? f = l.findSome? f := by
  induction l with
  | nil => rfl
  | cons a l ih =>
    cases hq : q a with
    | true => rw [List.filter_cons_of_pos hq, List.findSome?_cons, List.findSome?_cons, ih]
    | false =>
      rw [List.filter_cons_of_neg (by simp [hq]), List.findSome?_cons, h a hq, ih]

/-- Numbers are primitive, so none is dropped with the objects. -/
theorem nonFinite?_filter (h : Headers) (keep : Bool) :
    Snapshot.nonFinite? (h.filter fun _ v => keep || v.isPrimitive) = Snapshot.nonFinite? h := by
  apply findSome?_filter
  rintro ⟨name, v⟩ hv
  apply unprintable?_eq_none_iff.mpr
  cases v with
  | object p => trivial
  | null | bool _ | int _ | float _ | text _ => simp [NamedValue.isPrimitive] at hv

end Headers

namespace NamedValue

theorem depth_toJson_le_iff {v : NamedValue} : v.toJson.depth ≤ Json.maxDepth - 2 ↔ v.Fits := by
  have hone : 1 ≤ Json.maxDepth - 2 := by decide
  cases v with
  | object p =>
    have hd : (object p).toJson.depth = p.json.depth + 1 := by
      simp [toJson, content?, Json.depth, Json.depthMembers]
    rw [hd, Fits, room]
    simp only [Json.maxDepth]
    omega
  | int n =>
    have hd : (int n).toJson.depth = 1 := by
      simp [toJson, content?, toJson_ofInt, Json.depth, Json.depthMembers]
    rw [hd]
    exact ⟨fun _ => trivial, fun _ => hone⟩
  | float x => cases x <;> exact ⟨fun _ => trivial, fun _ => hone⟩
  | null | bool _ | text _ => exact ⟨fun _ => trivial, fun _ => hone⟩

end NamedValue

namespace Headers

theorem depth_toJson_le_iff {h : Headers} : h.toJson.depth ≤ Json.maxDepth - 1 ↔ h.Fits := by
  have hn (n : Nat) : n + 1 ≤ Json.maxDepth - 1 ↔ n ≤ Json.maxDepth - 2 := by
    simp only [Json.maxDepth]
    omega
  rw [toJson, Json.depth, hn, Json.depthMembers_le_iff, List.forall_mem_map]
  exact forall₂_congr fun _ _ => NamedValue.depth_toJson_le_iff

theorem fits_iff {h : Headers} :
    h.Fits ↔ ∀ name p, h.get? name = some (.object p) → p.json.depth ≤ NamedValue.room := by
  constructor
  · intro hf name p hp
    exact hf (name, .object p) (SortedMap.mem_entries.mpr hp)
  · rintro hf ⟨name, v⟩ hm
    cases v with
    | object p => exact hf name p (SortedMap.mem_entries.mp hm)
    | null | bool _ | int _ | float _ | text _ => trivial

end Headers

namespace Exchange

theorem kept_eq (keep : Bool) (e : Exchange) :
    e.kept keep = { e with headers := e.headers.filter fun _ v => keep || v.isPrimitive } := by
  cases keep with
  | false => rfl
  | true =>
    have hh : e.headers.filter (fun _ v => true || v.isPrimitive) = e.headers :=
      SortedMap.entries_injective (by simp [SortedMap.filter])
    rw [hh]
    rfl

def FirstOffence (e : Exchange) (err : CodecError) : Prop :=
  (∃ name x, Headers.FirstUnprintable e.headers name x ∧ err = .nonFinite "header" name x) ∨
    (∀ name v, e.header? name = some v → v.Printable) ∧
      ∃ name x, Headers.FirstUnprintable e.properties name x ∧ err = .nonFinite "property" name x

end Exchange

namespace Snapshot

variable {e : Exchange} {err : CodecError}

theorem refuseNonFinite_eq_error_iff : refuseNonFinite e = .error err ↔ e.FirstOffence err := by
  have printable (hn : nonFinite? e.headers = none) (name : String) (v : NamedValue)
      (hv : e.header? name = some v) : v.Printable :=
    Headers.nonFinite?_eq_none_iff.mp hn (name, v) (SortedMap.mem_entries.mpr hv)
  unfold refuseNonFinite Exchange.FirstOffence
  simp only [← Headers.nonFinite?_eq_some_iff]
  cases hh : nonFinite? e.headers with
  | some p =>
    obtain ⟨name, x⟩ := p
    constructor
    · rintro ⟨⟩
      exact Or.inl ⟨name, x, rfl, rfl⟩
    · rintro (⟨_, _, ⟨⟩, rfl⟩ | ⟨hall, -⟩)
      · rfl
      · have hn : nonFinite? e.headers = none :=
          Headers.nonFinite?_eq_none_iff.mpr fun p hp => hall p.1 p.2 (SortedMap.mem_entries.mp hp)
        rw [hh] at hn
        cases hn
  | none =>
    cases hp : nonFinite? e.properties with
    | some p =>
      obtain ⟨name, x⟩ := p
      constructor
      · rintro ⟨⟩
        exact Or.inr ⟨printable hh, name, x, rfl, rfl⟩
      · rintro (⟨_, _, ⟨⟩, -⟩ | ⟨-, _, _, ⟨⟩, rfl⟩)
        rfl
    | none =>
      constructor
      · rintro ⟨⟩
      · rintro (⟨_, _, ⟨⟩, -⟩ | ⟨-, _, _, ⟨⟩, -⟩)

theorem refuseNonFinite_fails_iff :
    (∃ err, refuseNonFinite e = .error err) ↔
      ∃ name x, (e.header? name = some (.float x) ∨ e.property? name = some (.float x)) ∧
        x.isFinite = false := by
  have hsome : (∃ err, refuseNonFinite e = .error err) ↔
      (nonFinite? e.headers).isSome = true ∨ (nonFinite? e.properties).isSome = true := by
    unfold refuseNonFinite
    cases nonFinite? e.headers <;> cases nonFinite? e.properties <;> simp
  rw [hsome, Headers.nonFinite?_isSome_iff, Headers.nonFinite?_isSome_iff, ← exists_or]
  refine exists_congr fun name => ?_
  rw [← exists_or]
  exact exists_congr fun x => or_and_right.symm

theorem marshal_eq (keepObjects : Bool) (e : Exchange) :
    marshal keepObjects e =
      refuseNonFinite e >>= fun _ => .ok (toJson (e.kept keepObjects)).compact := by
  have hr : refuseNonFinite (e.kept keepObjects) = refuseNonFinite e := by
    rw [e.kept_eq, refuseNonFinite, Headers.nonFinite?_filter]
    rfl
  rw [← hr]
  rfl

theorem marshal_eq_error_iff {keepObjects : Bool} :
    marshal keepObjects e = .error err ↔ refuseNonFinite e = .error err := by
  rw [marshal_eq]
  cases refuseNonFinite e <;> simp [bind, Except.bind]

theorem depth_toJson_le_iff : (toJson e).depth ≤ Json.maxDepth ↔ e.Fits := by
  have hd : (toJson e).depth =
      max e.body.json.depth (max (Headers.toJson e.headers).depth (Headers.toJson e.properties).depth)
        + 1 := by
    have hv : (Json.ofNat version).depth = 0 := rfl
    simp [toJson, Exchange.members, Json.depth, Json.depthMembers, hv]
  have hn (n : Nat) : n + 1 ≤ Json.maxDepth ↔ n ≤ Json.maxDepth - 1 := by
    simp only [Json.maxDepth]
    omega
  rw [hd, hn, max_le_iff, max_le_iff, Headers.depth_toJson_le_iff, Headers.depth_toJson_le_iff,
    e.fits_iff]

theorem fits_kept_iff {keepObjects : Bool} :
    (e.kept keepObjects).Fits ↔ e.body.json.depth ≤ 126 ∧
      (∀ name p, e.header? name = some (.object p) → keepObjects = true → p.json.depth ≤ 124) ∧
      ∀ name p, e.property? name = some (.object p) → p.json.depth ≤ 124 := by
  rw [Exchange.fits_iff, Headers.fits_iff, Headers.fits_iff, e.kept_eq]
  refine and_congr_right fun _ => and_congr_left fun _ => forall₂_congr fun name p => ?_
  simp only [SortedMap.get?_filter, Option.filter_eq_some_iff, NamedValue.isPrimitive,
    Bool.or_false, and_imp]
  rfl

theorem snapshot_domain (keepObjects : Bool) (e : Exchange) :
    ((∃ err, marshal keepObjects e = .error err) ↔
      ∃ name x, (e.header? name = some (.float x) ∨ e.property? name = some (.float x)) ∧
        x.isFinite = false) ∧
    (∀ err, marshal keepObjects e = .error err ↔ e.FirstOffence err) ∧
    (∀ b, marshal keepObjects e = .ok b → b = (toJson (e.kept keepObjects)).compact ∧
      (Reread (toJson (e.kept keepObjects)).floats →
        unmarshal b = if (toJson (e.kept keepObjects)).depth ≤ 127 then .ok (e.kept keepObjects)
          else .error (.json .malformed))) ∧
    e.kept keepObjects =
      { e with headers := e.headers.filter fun _ v => keepObjects || v.isPrimitive } ∧
    ((toJson (e.kept keepObjects)).depth ≤ 127 ↔ e.body.json.depth ≤ 126 ∧
      (∀ name p, e.header? name = some (.object p) → keepObjects = true → p.json.depth ≤ 124) ∧
      ∀ name p, e.property? name = some (.object p) → p.json.depth ≤ 124) := by
  have hdepth : (toJson (e.kept keepObjects)).depth ≤ 127 ↔ (e.kept keepObjects).Fits :=
    depth_toJson_le_iff
  refine ⟨?_, ?_, ?_, e.kept_eq keepObjects, hdepth.trans fits_kept_iff⟩
  · rw [← refuseNonFinite_fails_iff]
    exact exists_congr fun _ => marshal_eq_error_iff
  · intro err
    exact marshal_eq_error_iff.trans refuseNonFinite_eq_error_iff
  · intro b hb
    refine ⟨?_, ?_⟩
    · rw [marshal_eq] at hb
      obtain ⟨_, -, hb⟩ := Json.bind_eq_ok.mp hb
      exact (Except.ok.inj hb).symm
    · intro hx
      rw [unmarshal_marshal hb hx, reading]
      simp only [hdepth]

def tower : Nat → Json
  | 0 => .null
  | n + 1 => .array [tower n]

theorem isDate_leapDay : Instant.IsDate 2024 2 29 := by decide

theorem isTime_leapSecond : Instant.IsTime 23 59 60 0 := by decide

theorem canonical_half : Binary64.Canonical 0x10000000000000 (-53) := by decide

def steep : Exchange where
  id := "m"
  createdAt := ⟨2024, 2, 29, 23, 59, 60, 0, isDate_leapDay, isTime_leapSecond⟩
  body := .ofJson (tower 126)
  headers := .ofList [("ratio", .float (.finite ⟨false, 0x10000000000000, -53, canonical_half⟩)),
    ("deep", .object (.ofJson (tower 125)))]
  properties := .ofList [("blob", .object (.ofJson (tower 124)))]

theorem snapshot_domain_steep :
    (∃ b, marshal false steep = .ok b ∧ Reread (toJson (steep.kept false)).floats ∧
      unmarshal b = .ok steep.dropObjects) ∧
    (∃ b, marshal true steep = .ok b ∧ Reread (toJson (steep.kept true)).floats ∧
      unmarshal b = .error (.json .malformed)) ∧
    marshal false { steep with headers := .ofList [("b", .float .nan), ("c", .float .nan)] } =
      .error (.nonFinite "header" "b" .nan) := by
  have hm (keep : Bool) : marshal keep steep = .ok (toJson (steep.kept keep)).compact := by
    rw [marshal_eq, show refuseNonFinite steep = .ok () from rfl]
    rfl
  have hx (keep : Bool) : Reread (toJson (steep.kept keep)).floats := by
    have hf : (toJson (steep.kept keep)).floats = [⟨false, 0x10000000000000, -53, by decide⟩] := by
      cases keep <;> decide +kernel
    rw [hf]
    intro x hm
    rw [List.mem_singleton.mp hm]
    rfl
  have hback (keep : Bool) := ((snapshot_domain keep steep).2.2.1 _ (hm keep)).2 (hx keep)
  refine ⟨⟨_, hm false, hx false, ?_⟩, ⟨_, hm true, hx true, ?_⟩, rfl⟩
  · rw [hback, if_pos (by decide +kernel)]
    rfl
  · rw [hback, if_neg (by decide +kernel)]

end Snapshot

end Staging
