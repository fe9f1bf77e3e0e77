import Mathlib
import Staging.Store.TableFile
import Staging.Proofs.Lines
import Staging.Proofs.SortedMap
import Staging.Proofs.Text

namespace Staging

namespace Bytes

theorem toNat_ofNat_of_lt {n : Nat} (h : n < 128) : (UInt8.ofNat n).toNat = n :=
  UInt8.toNat_ofNat_of_lt' (h.trans (by decide))

theorem asciiChars_ofString {cs : List Char} (h : ∀ c ∈ cs, c.toNat < 128) :
    asciiChars (ofString (String.ofList cs)) = cs := by
  rw [ofString_eq_flatMap, String.toList_ofList]
  induction cs with
  | nil => rfl
  | cons c r ih =>
    obtain ⟨hc, hr⟩ := List.forall_mem_cons.mp h
    rw [List.flatMap_cons, utf8EncodeChar_of_lt hc, List.singleton_append, asciiChars,
      List.map_cons, toNat_ofNat_of_lt hc, Char.ofNat_toNat, ← asciiChars, ih hr]

end Bytes

namespace Hex

theorem digit_bounds (n : Nat) : 48 ≤ (digit n).toNat ∧ (digit n).toNat < 128 := by
  have h : ∀ m < 16, 48 ≤ (Nat.digitChar m).toNat ∧ (Nat.digitChar m).toNat < 128 := by decide
  exact h (n % 16) (Nat.mod_lt n (by decide))

theorem bounds_of_mem_encodeChars {b : Bytes} {c : Char} (h : c ∈ encodeChars b) :
    48 ≤ c.toNat ∧ c.toNat < 128 := by
  obtain ⟨x, -, hc⟩ := List.mem_flatMap.mp h
  simp only [List.mem_cons, List.not_mem_nil, or_false] at hc
  rcases hc with rfl | rfl <;> exact digit_bounds _

theorem le_of_mem_encode {b : Bytes} {x : UInt8} (h : x ∈ Bytes.ofString (encode b)) : 48 ≤ x := by
  rw [Bytes.ofString_eq_flatMap, encode, String.toList_ofList] at h
  obtain ⟨c, hc, hx⟩ := List.mem_flatMap.mp h
  obtain ⟨hl, hu⟩ := bounds_of_mem_encodeChars hc
  rw [Bytes.utf8EncodeChar_of_lt hu, List.mem_singleton] at hx
  rw [hx, UInt8.le_iff_toNat_le, Bytes.toNat_ofNat_of_lt hu]
  exact hl

theorem decodeChars_encode (b : Bytes) :
    decodeChars (Bytes.asciiChars (Bytes.ofString (encode b))) = b := by
  rw [encode, Bytes.asciiChars_ofString fun c hc => (bounds_of_mem_encodeChars hc).2,
    decodeChars_encodeChars]

end Hex

namespace Table

theorem decodeEntry_encodeEntry (e : Entry) : decodeEntry (encodeEntry e) = e := by
  have hkey : (encodeEntry e).takeWhile (· ≠ Ascii.space) = Bytes.ofString (Hex.encode e.1) := by
    rw [encodeEntry, List.takeWhile_append_of_pos, List.takeWhile_cons_of_neg (by simp),
      List.append_nil]
    intro x hx
    have := Hex.le_of_mem_encode hx
    rw [decide_eq_true_eq]
    rintro rfl
    revert this
    decide
  have hvalue : (encodeEntry e).drop ((Bytes.ofString (Hex.encode e.1)).length + 1) =
      Bytes.ofString (Hex.encode e.2) := by
    rw [encodeEntry, ← List.drop_drop, List.drop_left, List.drop_succ_cons, List.drop_zero]
  rw [decodeEntry, hkey, hvalue, Hex.decodeChars_encode, Hex.decodeChars_encode]

theorem le_of_mem_encodeEntry {e : Entry} {x : UInt8} (h : x ∈ encodeEntry e) : 32 ≤ x := by
  rw [encodeEntry, List.mem_append, List.mem_cons] at h
  rcases h with h | rfl | h
  · exact UInt8.le_trans (by decide) (Hex.le_of_mem_encode h)
  · decide
  · exact UInt8.le_trans (by decide) (Hex.le_of_mem_encode h)

end Table

namespace TableFile

theorem le_of_mem_heading {f : TableFile} {x : UInt8} (h : x ∈ f.heading) : 32 ≤ x := by
  have htexts : ∀ s ∈ ["staging table", "staging table without log", "staging table to be made"],
      ∀ x ∈ Bytes.ofString s, 32 ≤ x := by decide +kernel
  unfold heading at h
  split at h <;> exact htexts _ (by simp) x h

theorem lines_image (f : TableFile) :
    f.image.lines = f.heading :: (f.table.getD .empty).entries.map Table.encodeEntry := by
  have hle : ∀ l ∈ f.heading :: (f.table.getD .empty).entries.map Table.encodeEntry,
      ∀ x ∈ l, 32 ≤ x := by
    rw [List.forall_mem_cons]
    refine ⟨fun x hx => le_of_mem_heading hx, fun l hl x hx => ?_⟩
    obtain ⟨e, -, rfl⟩ := List.mem_map.mp hl
    exact Table.le_of_mem_encodeEntry hx
  refine Bytes.lines_flatMap (fun l hl hx => ?_) fun l hl hx => ?_
  · exact absurd (hle l hl _ hx) (by decide)
  · exact absurd (hle l hl _ (List.mem_of_getLast? hx)) (by decide)

theorem table_of_image (f : TableFile) :
    SortedMap.ofList (f.image.lines.tail.map Table.decodeEntry) = f.table.getD .empty := by
  have hid : Table.decodeEntry ∘ Table.encodeEntry = id :=
    funext Table.decodeEntry_encodeEntry
  rw [lines_image, List.tail_cons, List.map_map, hid, List.map_id, SortedMap.ofList_entries]

theorem heading_of_image {f g : TableFile} (h : f.image = g.image) : f.heading = g.heading := by
  have hlines := congrArg Bytes.lines h
  rw [lines_image, lines_image] at hlines
  exact (List.cons.inj hlines).1

theorem ofImage?_closed (t : Table) (logged : Bool) :
    ofImage? (closed t logged).image = some (closed t logged) := by
  have htable : SortedMap.ofList ((closed t logged).image.lines.tail.map Table.decodeEntry) = t :=
    table_of_image _
  rw [ofImage?, htable]
  cases logged with
  | true => exact List.find?_cons_of_pos (by simp)
  | false =>
    have hne : (closed t true).image ≠ (closed t false).image := by
      intro h
      have hheading : Bytes.ofString "staging table" = Bytes.ofString "staging table without log" :=
        heading_of_image h
      exact absurd hheading (by decide +kernel)
    rw [List.find?_cons_of_neg (by simpa using hne)]
    exact List.find?_cons_of_pos (by simp)

/-- A file comes back from its bytes if no store has it open and its log is settled. -/
theorem ofImage?_eq_some_iff {b : Bytes} {f : TableFile} :
    ofImage? b = some f ↔ f.image = b ∧ ((∃ t logged, f = closed t logged) ∨ f = blank.toLogged) := by
  constructor
  · intro h
    refine ⟨by simpa using List.find?_some h, ?_⟩
    have hmem := List.mem_of_find?_eq_some h
    simp only [List.mem_cons, List.not_mem_nil, or_false] at hmem
    rcases hmem with rfl | rfl | rfl
    · exact .inl ⟨_, _, rfl⟩
    · exact .inl ⟨_, _, rfl⟩
    · exact .inr rfl
  · rintro ⟨rfl, ⟨t, logged, rfl⟩ | rfl⟩
    · exact ofImage?_closed t logged
    · decide +kernel

end TableFile

end Staging
