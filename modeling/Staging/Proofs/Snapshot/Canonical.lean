import Mathlib
import Staging.Proofs.Json.Depth
import Staging.Proofs.Snapshot

namespace Staging

open Json (Fault Spelled Reread bind_eq_ok map_eq_ok)

namespace NamedValue

structure Writable (v : NamedValue) : Prop where
  fits : v.Fits
  printable : v.Printable

theorem writable_of_readContent {k : Kind} {s : Spelled} {v : NamedValue}
    (h : readContent k s = .ok v) : v.Writable := by
  cases k with
  | object =>
    obtain ⟨p, hp, rfl⟩ := map_eq_ok.mp h
    exact ⟨Spelled.depth_of_readPayload hp, trivial⟩
  | float =>
    obtain ⟨x, -, rfl⟩ := map_eq_ok.mp h
    exact ⟨trivial, rfl⟩
  | null | bool | int | text =>
    obtain ⟨_, -, rfl⟩ := map_eq_ok.mp h
    exact ⟨trivial, trivial⟩

def Draft.Writable : Draft → Prop
  | .done v => v.Writable
  | _ => True

theorem writable_of_readMember {d d' : Draft} {name : String} {s : Spelled} (hd : d.Writable)
    (h : readMember d name s = .ok d') : d'.Writable := by
  unfold readMember at h
  split_ifs at h
  · cases d with
    | blank =>
      obtain ⟨k, -, rfl⟩ := map_eq_ok.mp h
      trivial
    | contained c =>
      obtain ⟨k, -, h⟩ := bind_eq_ok.mp h
      obtain ⟨v, hv, h⟩ := bind_eq_ok.mp h
      cases h
      exact writable_of_readContent hv
    | kinded _ | done _ => cases h
  · cases d with
    | blank =>
      obtain ⟨_, -, h⟩ := bind_eq_ok.mp h
      cases h
      trivial
    | kinded k =>
      obtain ⟨v, hv, rfl⟩ := map_eq_ok.mp h
      exact writable_of_readContent hv
    | contained _ | done _ => cases h
  · obtain ⟨_, -, h⟩ := bind_eq_ok.mp h
    cases h
    exact hd

theorem writable_of_finish {d : Draft} {v : NamedValue} (hd : d.Writable) (h : d.finish = .ok v) :
    v.Writable := by
  cases d with
  | done w =>
    cases h
    exact hd
  | kinded k =>
    cases k <;> cases h
    exact ⟨trivial, trivial⟩
  | blank | contained _ => cases h

theorem writable_of_read {s : Spelled} {v : NamedValue} (h : read s = .ok v) : v.Writable := by
  cases s with
  | object members cut =>
    obtain ⟨d, hd, h⟩ := bind_eq_ok.mp h
    obtain ⟨_, -, h⟩ := bind_eq_ok.mp h
    refine writable_of_finish (Spelled.foldlM_induct ?_ (show Draft.blank.Writable from trivial) hd) h
    intro d p d' hd hp
    obtain ⟨name, -, hp⟩ := bind_eq_ok.mp hp
    exact writable_of_readMember hd hp
  | array items cut =>
    match items with
    | [] =>
      obtain ⟨_, -, h⟩ := bind_eq_ok.mp h
      cases h
    | [t] =>
      obtain ⟨_, -, h⟩ := bind_eq_ok.mp h
      obtain ⟨_, -, h⟩ := bind_eq_ok.mp h
      cases h
    | t :: c :: more =>
      obtain ⟨k, -, h⟩ := bind_eq_ok.mp h
      obtain ⟨w, hw, h⟩ := bind_eq_ok.mp h
      split_ifs at h
      obtain ⟨_, -, h⟩ := bind_eq_ok.mp h
      cases h
      exact writable_of_readContent hw
  | null | bool _ | number _ | text _ | broken _ => cases h

end NamedValue

namespace Headers

def Writable (h : Headers) : Prop := ∀ p ∈ h.entries, p.2.Writable

theorem writable_of_read {s : Spelled} {h : Headers} (hr : read s = .ok h) : h.Writable :=
  Spelled.forall_of_readMap (fun _ _ => NamedValue.writable_of_read) hr

theorem writable_empty : Writable .empty := by simp [Writable, SortedMap.empty]

theorem Writable.nonFinite? {h : Headers} (hw : h.Writable) : Snapshot.nonFinite? h = none :=
  nonFinite?_eq_none_iff.mpr fun p hp => (hw p hp).printable

end Headers

namespace Exchange

structure Draft.Writable (d : Draft) : Prop where
  body : ∀ p, d.body = some p → p.json.depth ≤ Json.maxDepth - 1
  headers : ∀ h, d.headers = some h → Headers.Writable h
  properties : ∀ h, d.properties = some h → Headers.Writable h

theorem writable_of_readField {d d' : Draft} {name : String} {s : Spelled} (hd : d.Writable)
    (h : readField d name s = .ok d') : d'.Writable := by
  unfold readField at h
  split_ifs at h
  · obtain ⟨_, -, rfl⟩ := map_eq_ok.mp h
    exact ⟨hd.body, hd.headers, hd.properties⟩
  · obtain ⟨_, -, rfl⟩ := map_eq_ok.mp h
    exact ⟨hd.body, hd.headers, hd.properties⟩
  · obtain ⟨p, hp, rfl⟩ := map_eq_ok.mp h
    refine ⟨?_, hd.headers, hd.properties⟩
    rintro _ ⟨⟩
    exact Spelled.depth_of_readPayload hp
  · obtain ⟨m, hm, rfl⟩ := map_eq_ok.mp h
    refine ⟨hd.body, ?_, hd.properties⟩
    rintro _ ⟨⟩
    exact Headers.writable_of_read hm
  · obtain ⟨m, hm, rfl⟩ := map_eq_ok.mp h
    refine ⟨hd.body, hd.headers, ?_⟩
    rintro _ ⟨⟩
    exact Headers.writable_of_read hm

structure Writable (e : Exchange) : Prop where
  body : e.body.json.depth ≤ Json.maxDepth - 1
  headers : Headers.Writable e.headers
  properties : Headers.Writable e.properties

theorem Writable.fits {e : Exchange} (h : e.Writable) : e.Fits :=
  ⟨h.body, fun p hp => (h.headers p hp).fits, fun p hp => (h.properties p hp).fits⟩

theorem writable_of_finish {d : Draft} {e : Exchange} (hd : d.Writable) (h : d.finish = .ok e) :
    e.Writable := by
  have given {m : Option Headers} (hm : ∀ h, m = some h → Headers.Writable h) :
      Headers.Writable (m.getD .empty) := by
    cases m with
    | none => exact Headers.writable_empty
    | some m => exact hm m rfl
  unfold Draft.finish at h
  split at h
  · rename_i hb
    cases h
    exact ⟨hd.body _ hb, given hd.headers, given hd.properties⟩
  · cases h

end Exchange

namespace Snapshot

theorem writable_of_read {s : Spelled} {v : Nat} {e : Exchange} (h : read s = .ok (v, e)) :
    e.Writable := by
  obtain ⟨d, hd, h⟩ := bind_eq_ok.mp h
  have hw : d.exchange.Writable := by
    refine Spelled.readRecord_induct (P := fun d : Draft => d.exchange.Writable) ?_ ?_ hd
    · intro d name s d' hd hf
      unfold readField at hf
      split_ifs at hf
      · obtain ⟨_, -, rfl⟩ := map_eq_ok.mp hf
        exact hd
      · obtain ⟨x, hx, rfl⟩ := map_eq_ok.mp hf
        exact Exchange.writable_of_readField hd hx
    · exact ⟨nofun, nofun, nofun⟩
  split at h
  · cases h
  · obtain ⟨e', he, h⟩ := bind_eq_ok.mp h
    cases h
    exact Exchange.writable_of_finish hw he

theorem writable_of_unmarshal {b : Bytes} {e : Exchange} (h : unmarshal b = .ok e) :
    e.Writable := by
  unfold unmarshal at h
  split at h
  · cases h
  · rename_i v x hd
    split_ifs at h
    cases h
    exact writable_of_read (Json.read_of_decode hd)

theorem marshal_of_writable {e : Exchange} (h : e.Writable) :
    marshal true e = .ok (toJson e).compact := by
  have hr : refuseNonFinite e = .ok () := by
    simp only [refuseNonFinite, h.headers.nonFinite?, h.properties.nonFinite?]
  have hm : marshal true e = refuseNonFinite e >>= fun _ => .ok (toJson e).compact := rfl
  rw [hm, hr]
  rfl

theorem canonical_of_unmarshal {b : Bytes} {e : Exchange} (h : unmarshal b = .ok e) :
    ∃ c, marshal true e = .ok c ∧ (Reread (toJson e).floats →
      unmarshal c = .ok e ∧ ∀ e', unmarshal c = .ok e' → marshal true e' = .ok c) := by
  have hw := writable_of_unmarshal h
  have hc := marshal_of_writable hw
  refine ⟨(toJson e).compact, hc, ?_⟩
  intro hx
  have hread : unmarshal (toJson e).compact = .ok e :=
    (unmarshal_marshal hc hx).trans (if_pos hw.fits)
  refine ⟨hread, ?_⟩
  intro e' he
  rw [hread] at he
  cases he
  exact hc

def scattered : Bytes := Bytes.ofString <|
  "\x7b\"old\": [\"\\ud800\"], \"body\": \x7b\"b\": 1, \"a\": 2, \"b\": [3e0]\x7d, " ++
  "\"headers\": \x7b\"h\": [\"null\", null], \"h\": \x7b\"value\": 7, \"type\": \"float\"\x7d\x7d, " ++
  "\"created_at\": \"2024-01-01T01:30:00+01:30\", \"exchange_id\": \"m\", \"version\": 1\x7d"

theorem isTime_midnight : Instant.IsTime 0 0 0 0 := by decide

def gathered : Exchange where
  id := "m"
  createdAt := ⟨2024, 1, 1, 0, 0, 0, 0, by decide, isTime_midnight⟩
  body := .ofJson (.object [("a", .ofNat 2),
    ("b", .array [.number (.float ⟨false, 0x18000000000000, -51, by decide⟩)])])
  headers := .ofList [("h", .float (.finite ⟨false, 0x1c000000000000, -50, by decide⟩))]
  properties := .empty

theorem canonical_of_unmarshal_scattered :
    unmarshal scattered = .ok gathered ∧ Reread (toJson gathered).floats ∧
      ∃ c, marshal true gathered = .ok c ∧ unmarshal c = .ok gathered ∧ c = Bytes.ofString (
        "\x7b\"version\":1,\"exchange_id\":\"m\",\"created_at\":\"2024-01-01T00:00:00Z\"," ++
        "\"body\":\x7b\"a\":2,\"b\":[3.0]\x7d," ++
        "\"headers\":\x7b\"h\":\x7b\"type\":\"float\",\"value\":7.0\x7d\x7d,\"properties\":\x7b\x7d\x7d") := by
  have hread : unmarshal scattered = .ok gathered := by decide +kernel
  have hx : Reread (toJson gathered).floats := by
    have hf : (toJson gathered).floats = [⟨false, 0x18000000000000, -51, by decide⟩,
        ⟨false, 0x1c000000000000, -50, by decide⟩] := by decide +kernel
    rw [hf]
    intro x hm
    rcases List.mem_pair.mp hm with rfl | rfl <;> rfl
  obtain ⟨c, hc, hback⟩ := canonical_of_unmarshal hread
  refine ⟨hread, hx, c, hc, (hback hx).1, ?_⟩
  have htext : marshal true gathered = .ok (toJson gathered).compact := rfl
  rw [hc] at htext
  rw [Except.ok.inj htext]
  decide +kernel

end Snapshot

end Staging
