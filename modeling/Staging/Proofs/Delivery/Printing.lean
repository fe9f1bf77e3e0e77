import Mathlib
import Staging.CommandLine.Session
import Staging.Proofs.Lines
import Staging.Proofs.KeySpace
import Staging.Proofs.Json.Layouts
import Staging.Proofs.Snapshot.Domain
import Staging.Proofs.Delivery.DeadLetterFile

namespace Staging

open Json (Reread)

namespace Exchange

structure Legible (e : Exchange) : Prop where
  headers : ∀ p ∈ e.headers.entries, p.2.Printable
  properties : ∀ p ∈ e.properties.entries, p.2.Printable
  depth : e.toJson.depth ≤ 127
  rereads : Reread e.toJson.floats

variable {e : Exchange}

theorem depth_toJson_eq (e : Exchange) : (Snapshot.toJson e).depth = e.toJson.depth := by
  have hversion : (Json.ofNat Snapshot.version).depth = 0 := rfl
  simp only [Snapshot.toJson, toJson, Json.depth, Json.depthMembers, hversion, Nat.zero_max]

theorem Legible.read_spell (h : e.Legible) : read (Json.spell e.toJson) = .ok e := by
  have hfits : e.Fits := by
    apply Snapshot.depth_toJson_le_iff.mp
    rw [depth_toJson_eq]
    exact h.depth
  rw [Exchange.read_spell h.headers h.properties, if_pos hfits]

theorem Legible.decode_compact (h : e.Legible) : Json.decode read e.toJson.compact = .ok e :=
  (Json.decode_compact read h.rereads).trans h.read_spell

theorem Legible.decode_pretty (h : e.Legible) {w : Bytes} (hw : ∀ c ∈ w, Json.isSpace c = true) :
    Json.decode read (e.toJson.pretty ++ w) = .ok e :=
  (Json.decode_pretty read h.rereads hw).trans h.read_spell

end Exchange

section Redeliveries

variable {σ : Type}

def Collaborators.redeliverAll (k : Collaborators σ) :
    List Exchange → Desk σ → List (Except DeliveryError Unit) × Desk σ
  | [], desk => ([], desk)
  | e :: es, desk =>
    let (x, desk) := k.redeliver e desk
    let (xs, desk) := k.redeliverAll es desk
    (x :: xs, desk)

end Redeliveries

namespace CommandLine

variable {f : DeadLetterFile} {now : Instant}

theorem redeliverAll_printing (es : List Exchange) (desk : Desk Bytes) :
    (printing f now).redeliverAll es desk =
      (es.map fun _ => .ok (), { desk with outside := desk.outside ++ es.flatMap Exchange.line }) := by
  induction es generalizing desk with
  | nil => simp [Collaborators.redeliverAll]
  | cons e es ih =>
    have hone : (printing f now).redeliver e desk =
        (.ok (), { desk with outside := desk.outside ++ e.line }) := rfl
    simp only [Collaborators.redeliverAll, hone, ih, List.map_cons, List.flatMap_cons,
      List.append_assoc]

theorem lines_flatMap_line (es : List Exchange) :
    Bytes.lines (es.flatMap Exchange.line) = es.map fun e => e.toJson.compact := by
  have hlines : es.flatMap Exchange.line =
      (es.map fun e => e.toJson.compact).flatMap (· ++ [Ascii.lineFeed]) := by
    rw [List.flatMap_map]
    rfl
  rw [hlines, Bytes.lines_flatMap]
  · intro l hl
    obtain ⟨e, -, rfl⟩ := List.mem_map.mp hl
    exact (Json.plain_compact e.toJson).lineFeed_notMem
  · intro l hl
    obtain ⟨e, -, rfl⟩ := List.mem_map.mp hl
    exact (Json.plain_compact e.toJson).getLast?_ne

theorem decode_lines {es : List Exchange} (h : ∀ e ∈ es, e.Legible) :
    (Bytes.lines (es.flatMap Exchange.line)).mapM (Json.decode Exchange.read) = .ok es := by
  rw [lines_flatMap_line]
  induction es with
  | nil => rfl
  | cons e es ih =>
    obtain ⟨he, hes⟩ := List.forall_mem_cons.mp h
    simp only [List.map_cons, List.mapM_cons, he.decode_compact, ih hes, bind, Except.bind]
    rfl

theorem isSpace_lineFeed : ∀ c ∈ [Ascii.lineFeed], Json.isSpace c = true := by
  intro c hc
  rw [List.mem_singleton.mp hc]
  rfl

theorem output_get {r : Repository} {key : String} {s : Shelf} {e : Exchange}
    (h : (r.get key s).1 = .ok (some e)) :
    (execute (.get key) r now s).1 = .printed (e.toJson.pretty ++ [Ascii.lineFeed]) := by
  simp only [execute, h, showExchange]

theorem output_recover {r : Repository} {id : String} {s : Shelf} {e : Exchange}
    (h : (r.recover id s).1 = .ok (some e)) :
    (execute (.recover id) r now s).1 = .printed (e.toJson.pretty ++ [Ascii.lineFeed]) := by
  have hrecovery : r.settings.useRecovery = true := by
    by_contra hr
    simp [Repository.recover, hr] at h
  simp only [execute, if_pos hrecovery, h, showExchange]

theorem prints_faithfully (f : DeadLetterFile) (now : Instant) :
    (∀ e : Exchange, e.Legible →
      (Bytes.IsText e.toJson.compact ∧ Ascii.lineFeed ∉ e.toJson.compact ∧
        Json.decode Exchange.read e.toJson.compact = .ok e) ∧
      (Bytes.IsText e.toJson.pretty ∧ ∀ w : Bytes, (∀ c ∈ w, Json.isSpace c = true) →
        Json.decode Exchange.read (e.toJson.pretty ++ w) = .ok e) ∧
      ∀ (r : Repository) (name : String) (s : Shelf),
        ((r.get name s).1 = .ok (some e) →
          Json.decode Exchange.read (execute (.get name) r now s).1.output = .ok e) ∧
        ((r.recover name s).1 = .ok (some e) →
          Json.decode Exchange.read (execute (.recover name) r now s).1.output = .ok e)) ∧
    ∀ (es : List Exchange) (desk : Desk Bytes), (∀ e ∈ es, e.Legible) → desk.outside = [] →
      ∃ out, (printing f now).redeliverAll es desk =
          (es.map fun _ => .ok (), { desk with outside := out }) ∧
        Bytes.lines out = es.map (fun e => e.toJson.compact) ∧
        (Bytes.lines out).mapM (Json.decode Exchange.read) = .ok es := by
  constructor
  · intro e he
    have hplain := Json.plain_compact e.toJson
    have hprinted := he.decode_pretty isSpace_lineFeed
    refine ⟨⟨hplain.isText, hplain.lineFeed_notMem, he.decode_compact⟩,
      ⟨Json.isText_pretty e.toJson, fun w => he.decode_pretty⟩, ?_⟩
    intro r name s
    constructor
    · intro h
      rw [output_get h]
      exact hprinted
    · intro h
      rw [output_recover h]
      exact hprinted
  · intro es desk hes hempty
    refine ⟨es.flatMap Exchange.line, ?_, lines_flatMap_line es, decode_lines hes⟩
    rw [redeliverAll_printing, hempty, List.nil_append]

def quoted : Exchange where
  id := "m\n\"1\""
  createdAt := ⟨2024, 2, 29, 23, 59, 60, 0, Snapshot.isDate_leapDay, Snapshot.isTime_leapSecond⟩
  body := .ofJson (.object [("k\n", .array [.text "\r\n", .object []]),
    ("", .number (.float ⟨false, 0x10000000000000, -53, Snapshot.canonical_half⟩))])
  headers := .ofList [("a\r\nb", .text "\x00\\"),
    ("p", .float (.finite ⟨false, 0x10000000000000, -53, Snapshot.canonical_half⟩))]
  properties := .ofList [("o", .object (.ofJson (.array [.bool false])))]

theorem legible_quoted : quoted.Legible := by
  refine ⟨Headers.nonFinite?_eq_none_iff.mp rfl, Headers.nonFinite?_eq_none_iff.mp rfl,
    by decide +kernel, ?_⟩
  have hfloats : quoted.toJson.floats =
      List.replicate 2 ⟨false, 0x10000000000000, -53, Snapshot.canonical_half⟩ := by
    decide +kernel
  rw [hfloats]
  intro x hx
  rw [List.eq_of_mem_replicate hx]
  rfl

def desk : Desk Bytes := ⟨(Shelf.openStore ⟨.memory .new, .empty, .none⟩).2, true, []⟩

theorem prints_faithfully_quoted :
    let r : Repository := ⟨.named "orders", ⟨"orders", KeySpace.isName_orders⟩, Snapshot.codec⟩
    let s := (r.add "k" quoted desk.shelf).2
    Json.decode Exchange.read (execute (.get "k") r DeadLetterFile.Torn.now s).1.output =
      .ok quoted ∧
    ∃ out, (printing DeadLetterFile.Torn.file DeadLetterFile.Torn.now).redeliverAll [quoted, quoted]
          desk = ([.ok (), .ok ()], { desk with outside := out }) ∧
        Bytes.lines out = [quoted.toJson.compact, quoted.toJson.compact] ∧
        (Bytes.lines out).mapM (Json.decode Exchange.read) = .ok [quoted, quoted] := by
  intro r s
  obtain ⟨hone, hall⟩ := prints_faithfully DeadLetterFile.Torn.file DeadLetterFile.Torn.now
  obtain ⟨-, -, hcommands⟩ := hone quoted legible_quoted
  have hget : (r.get "k" s).1 = .ok (some quoted) := by decide +kernel
  refine ⟨(hcommands r "k" s).1 hget, hall [quoted, quoted] desk ?_ rfl⟩
  intro e he
  rw [List.eq_of_mem_replicate (n := 2) he]
  exact legible_quoted

end CommandLine

end Staging
