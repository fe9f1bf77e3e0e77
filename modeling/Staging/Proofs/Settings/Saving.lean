import Mathlib
import Staging.Proofs.Disk
import Staging.Proofs.Json.Layouts
import Staging.Proofs.Settings.Variables

namespace Staging.Settings

open Json (Fault Spelled spell)

def Value.toJson : Value → Json
  | .text s => .text s
  | .optional s => optionJson s
  | .flag b => .bool b
  | .number i => .ofInt i

variable {s t : Settings} {v : Variable}

theorem holds_value (s : Settings) (v : Variable) : v.kind.Holds (s.value v) := by
  cases v with
  | recoveryIntervalMs => exact ⟨s.intervalMs.le_toInt, Int.le_sub_one_of_lt s.intervalMs.toInt_lt⟩
  | maximumRedeliveries =>
    exact ⟨s.maxRedeliveries.le_toInt, Int.le_sub_one_of_lt s.maxRedeliveries.toInt_lt⟩
  | _ => trivial

theorem ofSpelled_toJson {x : Value} (h : v.kind.Holds x) :
    v.kind.ofSpelled (spell x.toJson) = .ok x := by
  have hnumber {bits : Nat} {i : Int} (hi : Kind.Holds (.number bits) (.number i))
      (hl : -0x8000000000000000 ≤ Kind.least bits) (hg : Kind.greatest bits < 0x10000000000000000) :
      (Kind.number bits).ofSpelled (spell (.ofInt i)) = .ok (.number i) := by
    rw [Kind.ofSpelled, Spelled.readInt_spell hi hl hg]
    rfl
  cases v with
  | repositoryName =>
    cases x with
    | text _ => rfl
    | _ => cases h
  | persistentFileName | deadLetterUri =>
    cases x with
    | optional o => cases o <;> rfl
    | _ => cases h
  | sync | returnOldExchange | useRecovery | allowSerializedHeaders =>
    cases x with
    | flag _ => rfl
    | _ => cases h
  | recoveryIntervalMs | maximumRedeliveries =>
    cases x with
    | number i => exact hnumber h (by decide) (by decide)
    | _ => cases h

theorem members_eq (s : Settings) :
    s.members = Variable.all.map fun v => (v.field, (s.value v).toJson) := rfl

theorem foldlM_readField (s : Settings) (vs : List Variable) (d : Settings) :
    ∃ t, vs.foldlM (fun d v => readField d v.field (spell (s.value v).toJson)) d = .ok t ∧
      ∀ u, t.value u = if u ∈ vs then s.value u else d.value u := by
  induction vs generalizing d with
  | nil => exact ⟨d, rfl, fun u => by rw [if_neg List.not_mem_nil]⟩
  | cons v vs ih =>
    obtain ⟨t, ht, hvalues⟩ := ih (d.place v (s.value v))
    refine ⟨t, ?_, fun u => ?_⟩
    · rw [List.foldlM_cons, readField_eq, ofSpelled_toJson (holds_value s v)]
      exact ht
    · rw [hvalues, value_place (holds_value s v)]
      simp only [List.mem_cons]
      by_cases hu : u = v <;> simp [hu]

theorem read_spell (s : Settings) : read (spell s.toJson) = .ok s := by
  obtain ⟨t, ht, hvalues⟩ := foldlM_readField s Variable.all default
  have hts : t = s := ext_value fun v => by rw [hvalues, if_pos v.mem_all]
  have hnames : s.members.map (·.1) = fieldNames := rfl
  rw [read, toJson, Spelled.readRecord_spell hnames nodup_fieldNames, members_eq, List.foldlM_map,
    ht, hts]

theorem Value.reread_toJson (x : Value) : Json.Reread x.toJson.floats := by
  cases x with
  | text _ | flag _ => exact Json.reread_nil
  | optional o => cases o <;> exact Json.reread_nil
  | number i =>
    rw [toJson, Json.ofInt]
    split_ifs <;> exact Json.reread_nil

theorem reread_toJson (s : Settings) : Json.Reread s.toJson.floats := by
  apply Json.reread_members
  rw [members_eq]
  exact List.forall_mem_map.mpr fun v _ => (s.value v).reread_toJson

theorem ofText_text (s : Settings) : ofText s.text = .ok s := by
  have hdecode : Json.decode read s.text = .ok s := by
    have h := Json.decode_pretty read (reread_toJson s) (w := []) (by simp)
    rwa [List.append_nil, read_spell] at h
  obtain ⟨u, hu⟩ : Bytes.IsText s.text := Json.isText_pretty s.toJson
  rw [ofText, ← hu, Bytes.toString?_ofString, hu, hdecode]
  rfl

variable {d d' : Disk} {path : String}

theorem save_eq_ok : s.save d path = (.ok (), d') ↔ d.write path s.text = (.ok (), d') := by
  rw [save]
  cases d.write path s.text with
  | mk x e => cases x <;> simp [Except.mapError]

theorem save_of_writable (h : d.Writable path) (s : Settings) :
    ∃ d', s.save d path = (.ok (), d') ∧ d'.read path = .ok (.bytes s.text) ∧
      loadFile d' path = .ok s ∧ s.save d' path = (.ok (), d') := by
  obtain ⟨d', hwrite, hread, hagain⟩ := Disk.write_of_writable h s.text
  refine ⟨d', save_eq_ok.mpr hwrite, hread, ?_, save_eq_ok.mpr hagain⟩
  rw [loadFile, hread]
  exact ofText_text s

theorem load_save (s : Settings) (d : Disk) (path : String) :
    ((∃ d', s.save d path = (.ok (), d')) ↔ d.Writable path) ∧
      ∀ d', s.save d path = (.ok (), d') →
        d'.read path = .ok (.bytes s.text) ∧ loadFile d' path = .ok s ∧
          ∀ t, loadFile d' path = .ok t → t.save d' path = (.ok (), d') := by
  have hwritable (d' : Disk) (h : s.save d path = (.ok (), d')) : d.Writable path :=
    Disk.writable_of_write (save_eq_ok.mp h)
  refine ⟨⟨fun ⟨d', h⟩ => hwritable d' h, fun h => ?_⟩, fun d' h => ?_⟩
  · obtain ⟨d', hsave, -⟩ := save_of_writable h s
    exact ⟨d', hsave⟩
  · obtain ⟨e, hsave, hread, hload, hagain⟩ := save_of_writable (hwritable d' h) s
    cases h.symm.trans hsave
    refine ⟨hread, hload, fun t ht => ?_⟩
    cases hload.symm.trans ht
    exact hagain

def strange : Settings :=
  ⟨"\"\\\n", some "", true, false, true, Int64.minValue, Int32.minValue, some "\x00\x1f", true⟩

theorem load_save_strange :
    ∃ d', strange.save Disk.empty "a/b.json" = (.ok (), d') ∧
      loadFile d' "a/b.json" = .ok strange ∧ strange.save d' "a/b.json" = (.ok (), d') := by
  obtain ⟨hsaves, hloads⟩ := load_save strange Disk.empty "a/b.json"
  have hwritable : Disk.empty.Writable "a/b.json" :=
    ⟨Disk.empty.addDirectory [Bytes.ofString "a"], [Bytes.ofString "a", Bytes.ofString "b.json"],
      by decide +kernel, by decide +kernel⟩
  obtain ⟨d', h⟩ := hsaves.mpr hwritable
  obtain ⟨-, hload, hagain⟩ := hloads d' h
  exact ⟨d', h, hload, hagain strange hload⟩

end Staging.Settings
