import Mathlib
import Staging.Snapshot
import Staging.Proofs.Instant
import Staging.Proofs.Json.Reading

namespace Staging

open Json (Fault Spelled spell Reread)

namespace NamedValue

def Fits : NamedValue → Prop
  | .object p => p.json.depth ≤ room
  | _ => True

instance decidableFits : (v : NamedValue) → Decidable v.Fits
  | .object p => inferInstanceAs (Decidable (p.json.depth ≤ room))
  | .null | .bool _ | .int _ | .float _ | .text _ => .isTrue trivial

def Printable : NamedValue → Prop
  | .float x => x.isFinite = true
  | _ => True

theorem toJson_ofInt (n : Int64) :
    Json.ofInt n.toInt = .number (.int n.toInt ⟨n.le_toInt, by have := n.toInt_lt; omega⟩) := by
  rw [Json.ofInt, dif_pos]

theorem readContent_spell {v : NamedValue} {j : Json} (hv : v.Printable) (hj : v.content? = some j) :
    readContent v.kind (spell j) = if v.Fits then .ok v else .error .malformed := by
  cases v with
  | null => cases hj
  | bool _ | text _ =>
    cases hj
    rfl
  | int n =>
    cases hj
    have hread : (spell (.ofInt n.toInt)).readInt (-0x8000000000000000) 0x7fffffffffffffff =
        .ok n.toInt :=
      Spelled.readInt_spell ⟨n.le_toInt, Int.le_sub_one_of_lt n.toInt_lt⟩ (by decide) (by decide)
    simp only [kind, readContent, hread]
    exact congrArg (fun m => Except.ok (NamedValue.int m)) (Int64.ofInt_toInt n)
  | float x =>
    cases hj
    cases x with
    | finite x => rfl
    | infinite _ | nan => cases hv
  | object p =>
    cases hj
    have hp := Spelled.readPayload_spell room p
    by_cases hd : p.json.depth ≤ room
    · rw [if_pos hd] at hp
      exact (congrArg (object <$> ·) hp).trans (if_pos hd).symm
    · rw [if_neg hd] at hp
      exact (congrArg (object <$> ·) hp).trans (if_neg hd).symm

theorem readMember_type (k : Kind) :
    readMember .blank "type" (.text (.ok k.name)) = .ok (.kinded k) := by
  cases k <;> rfl

theorem readMember_value (k : Kind) (s : Spelled) :
    readMember (.kinded k) "value" s = Draft.done <$> readContent k s := rfl

theorem read_spell {v : NamedValue} (hv : v.Printable) :
    read (spell v.toJson) = if v.Fits then .ok v else .error .malformed := by
  cases hj : v.content? with
  | none =>
    cases v with
    | null => rfl
    | bool _ | int _ | float _ | text _ | object _ => cases hj
  | some j =>
    have hc := readContent_spell hv hj
    have hspell : spell v.toJson = .object [(.text "type", .text (.ok v.kind.name)),
        (.text "value", spell j)] none := by
      simp [toJson, hj, spell, Json.spellMembers]
    rw [hspell, read]
    simp only [List.foldlM_cons, List.foldlM_nil, Spelled.Name.read, bind, Except.bind,
      readMember_type, readMember_value, hc]
    by_cases hf : v.Fits
    · simp only [if_pos hf]
      rfl
    · simp only [if_neg hf]
      rfl

end NamedValue

namespace Headers

def Fits (h : Headers) : Prop := ∀ p ∈ h.entries, p.2.Fits

instance (h : Headers) : Decidable h.Fits := inferInstanceAs (Decidable (∀ p ∈ h.entries, p.2.Fits))

theorem read_spell {h : Headers} (hp : ∀ p ∈ h.entries, p.2.Printable) :
    read (spell (toJson h)) = if h.Fits then .ok h else .error .malformed :=
  Spelled.readMap_spell fun p hm => NamedValue.read_spell (hp p hm)

def unprintable? (p : String × NamedValue) : Option (String × Binary64) :=
  match p.2 with
  | .float x => if x.isFinite then none else some (p.1, x)
  | _ => none

theorem nonFinite?_eq (h : Headers) : Snapshot.nonFinite? h = h.entries.findSome? unprintable? := rfl

theorem unprintable?_eq_none_iff {p : String × NamedValue} :
    unprintable? p = none ↔ p.2.Printable := by
  obtain ⟨name, v⟩ := p
  cases v with
  | float x => cases hx : x.isFinite <;> simp [unprintable?, NamedValue.Printable, hx]
  | null | bool _ | int _ | text _ | object _ => exact ⟨fun _ => trivial, fun _ => rfl⟩

theorem unprintable?_eq_some_iff {p : String × NamedValue} {name : String} {x : Binary64} :
    unprintable? p = some (name, x) ↔ p = (name, .float x) ∧ x.isFinite = false := by
  obtain ⟨k, v⟩ := p
  cases v with
  | float y =>
    cases hy : y.isFinite with
    | true =>
      simp only [unprintable?, hy, if_true, Prod.mk.injEq, NamedValue.float.injEq, reduceCtorEq,
        false_iff, not_and]
      rintro ⟨-, rfl⟩ hx
      rw [hy] at hx
      cases hx
    | false =>
      simp only [unprintable?, hy, Bool.false_eq_true, if_false, Option.some.injEq, Prod.mk.injEq,
        NamedValue.float.injEq]
      constructor
      · rintro ⟨rfl, rfl⟩
        exact ⟨⟨rfl, rfl⟩, hy⟩
      · exact And.left
  | null | bool _ | int _ | text _ | object _ => simp [unprintable?]

theorem nonFinite?_eq_none_iff {h : Headers} :
    Snapshot.nonFinite? h = none ↔ ∀ p ∈ h.entries, p.2.Printable := by
  rw [nonFinite?_eq, List.findSome?_eq_none_iff]
  exact forall₂_congr fun _ _ => unprintable?_eq_none_iff

end Headers

theorem Instant.read_spell (t : Instant) : Instant.read (spell (.text t.render)) = .ok t := by
  have ht : Spelled.readText (spell (.text t.render)) = .ok t.render := rfl
  simp only [Instant.read, ht, bind, Except.bind, read?_render]

namespace Exchange

structure Fits (e : Exchange) : Prop where
  body : e.body.json.depth ≤ Json.maxDepth - 1
  headers : Headers.Fits e.headers
  properties : Headers.Fits e.properties

theorem fits_iff (e : Exchange) :
    e.Fits ↔ e.body.json.depth ≤ Json.maxDepth - 1 ∧ Headers.Fits e.headers ∧ Headers.Fits e.properties :=
  ⟨fun h => ⟨h.body, h.headers, h.properties⟩, fun h => ⟨h.1, h.2.1, h.2.2⟩⟩

instance (e : Exchange) : Decidable e.Fits := decidable_of_iff' _ e.fits_iff

def kept (keepObjects : Bool) (e : Exchange) : Exchange := if keepObjects then e else e.dropObjects

end Exchange

namespace Exchange

section Draft

variable {d : Draft}

theorem readField_createdAt (t : Instant) :
    readField d "created_at" (spell (.text t.render)) = .ok { d with createdAt := some t } := by
  have hf : readField d "created_at" (spell (.text t.render)) =
      (fun x => { d with createdAt := some x }) <$> Instant.read (spell (.text t.render)) := rfl
  rw [hf, Instant.read_spell]
  rfl

theorem readField_body (p : Payload) :
    readField d "body" (spell p.json) =
      if p.json.depth ≤ Json.maxDepth - 1 then .ok { d with body := some p }
      else .error .malformed := by
  have hf : readField d "body" (spell p.json) =
      (fun x => { d with body := some x }) <$> (spell p.json).readPayload (Json.maxDepth - 1) := rfl
  rw [hf, Spelled.readPayload_spell]
  split_ifs <;> rfl

theorem readField_headers {h : Headers} (hp : ∀ p ∈ h.entries, p.2.Printable) :
    readField d "headers" (spell (Headers.toJson h)) =
      if Headers.Fits h then .ok { d with headers := some h } else .error .malformed := by
  have hf : readField d "headers" (spell (Headers.toJson h)) =
      (fun x => { d with headers := some x }) <$> Headers.read (spell (Headers.toJson h)) := rfl
  rw [hf, Headers.read_spell hp]
  split_ifs <;> rfl

theorem readField_properties {h : Headers} (hp : ∀ p ∈ h.entries, p.2.Printable) :
    readField d "properties" (spell (Headers.toJson h)) =
      if Headers.Fits h then .ok { d with properties := some h } else .error .malformed := by
  have hf : readField d "properties" (spell (Headers.toJson h)) =
      (fun x => { d with properties := some x }) <$> Headers.read (spell (Headers.toJson h)) := rfl
  rw [hf, Headers.read_spell hp]
  split_ifs <;> rfl

end Draft

def draft (e : Exchange) : Draft :=
  ⟨some e.id, some e.createdAt, some e.body, some e.headers, some e.properties⟩

variable {e : Exchange}

theorem foldlM_members (hh : ∀ p ∈ e.headers.entries, p.2.Printable)
    (hp : ∀ p ∈ e.properties.entries, p.2.Printable) :
    e.members.foldlM (fun d p => readField d p.1 (spell p.2)) Draft.blank =
      if e.Fits then .ok e.draft else .error .malformed := by
  have hid (d : Draft) :
      readField d "exchange_id" (spell (.text e.id)) = .ok { d with id := some e.id } := rfl
  simp only [members, List.foldlM_cons, List.foldlM_nil, hid, readField_createdAt, readField_body,
    readField_headers hh, readField_properties hp, bind, Except.bind]
  rw [if_congr e.fits_iff rfl rfl]
  by_cases hb : e.body.json.depth ≤ Json.maxDepth - 1
  · by_cases hf : Headers.Fits e.headers
    · by_cases hg : Headers.Fits e.properties
      · simp only [hb, hf, hg, and_self, if_true]
        rfl
      · simp only [hb, hf, hg, and_false, if_true, if_false]
    · simp only [hb, hf, false_and, and_false, if_true, if_false]
  · simp only [hb, false_and, if_false]

theorem nodup_fieldNames : fieldNames.Nodup := by decide

theorem read_spell (hh : ∀ p ∈ e.headers.entries, p.2.Printable)
    (hp : ∀ p ∈ e.properties.entries, p.2.Printable) :
    read (spell e.toJson) = if e.Fits then .ok e else .error .malformed := by
  have hnames : e.members.map (·.1) = fieldNames := rfl
  rw [read, toJson, Spelled.readRecord_spell hnames nodup_fieldNames, foldlM_members hh hp]
  split_ifs <;> rfl

end Exchange

namespace Snapshot

theorem readField_of_ne {v : Option Nat} {x : Exchange.Draft} {k : String} (hk : k ≠ "version")
    (s : Spelled) :
    readField ⟨v, x⟩ k s = (fun x => ⟨v, x⟩) <$> Exchange.readField x k s := if_neg hk

theorem version_ne {e : Exchange} : ∀ p ∈ e.members, p.1 ≠ "version" := by
  simp only [Exchange.members, List.forall_mem_cons]
  decide

theorem read_spell {e : Exchange} (hh : ∀ p ∈ e.headers.entries, p.2.Printable)
    (hp : ∀ p ∈ e.properties.entries, p.2.Printable) :
    read (spell (toJson e)) = if e.Fits then .ok (version, e) else .error .malformed := by
  have hnames : (("version", Json.ofNat version) :: e.members).map (·.1) =
      "version" :: Exchange.fieldNames := rfl
  have hversion : readField ⟨none, .blank⟩ "version" (spell (.ofNat version)) =
      .ok ⟨some version, .blank⟩ := rfl
  have hlift : e.members.foldlM (fun d p => readField d p.1 (spell p.2)) ⟨some version, .blank⟩ =
      (fun x => ⟨some version, x⟩) <$>
        e.members.foldlM (fun d p => Exchange.readField d p.1 (spell p.2)) .blank :=
    Spelled.foldlM_lift (fun _ p hm => readField_of_ne (version_ne p hm) (spell p.2)) _
  rw [read, toJson, Spelled.readRecord_spell hnames (by decide), List.foldlM_cons, hversion]
  simp only [bind, Except.bind]
  rw [hlift, Exchange.foldlM_members hh hp]
  split_ifs <;> rfl

theorem nonFinite?_of_refuseNonFinite {e : Exchange} (h : refuseNonFinite e = .ok ()) :
    nonFinite? e.headers = none ∧ nonFinite? e.properties = none := by
  unfold refuseNonFinite at h
  split at h
  · cases h
  · cases h
  · constructor <;> assumption

theorem unmarshal_compact {e : Exchange} (h : refuseNonFinite e = .ok ())
    (hx : Reread (toJson e).floats) :
    unmarshal (toJson e).compact = if e.Fits then .ok e else .error (.json .malformed) := by
  obtain ⟨hh, hp⟩ := nonFinite?_of_refuseNonFinite h
  have hread := read_spell (Headers.nonFinite?_eq_none_iff.mp hh) (Headers.nonFinite?_eq_none_iff.mp hp)
  rw [unmarshal, Json.decode_compact read hx, hread]
  split_ifs <;> rfl

def reading (keepObjects : Bool) (e : Exchange) : Except CodecError Exchange :=
  if (e.kept keepObjects).Fits then .ok (e.kept keepObjects) else .error (.json .malformed)

theorem unmarshal_marshal {keepObjects : Bool} {e : Exchange} {b : Bytes}
    (h : marshal keepObjects e = .ok b) (hx : Reread (toJson (e.kept keepObjects)).floats) :
    unmarshal b = reading keepObjects e := by
  have hm : marshal keepObjects e =
      refuseNonFinite (e.kept keepObjects) >>= fun _ => .ok (toJson (e.kept keepObjects)).compact := rfl
  rw [hm] at h
  cases hr : refuseNonFinite (e.kept keepObjects) with
  | error err =>
    rw [hr] at h
    cases h
  | ok _ =>
    rw [hr] at h
    cases h
    exact unmarshal_compact hr hx

end Snapshot

end Staging
