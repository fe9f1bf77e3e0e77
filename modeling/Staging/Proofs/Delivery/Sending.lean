import Mathlib
import Staging.Proofs.Delivery.DeadLetterFile
import Staging.Proofs.Recovery.Tour
import Staging.Proofs.Snapshot.Domain

namespace Staging

open Json (Reread)

namespace Exchange

inductive Recovered : Exchange → Prop
  | read {b : Bytes} {e : Exchange} (h : Snapshot.unmarshal b = .ok e) : Recovered e
  | stamp {e : Exchange} (h : Recovered e) (attempt : UInt32) (maximum : Int32) :
    Recovered (e.stamp attempt maximum)

variable {e : Exchange}

theorem Writable.setHeader (h : e.Writable) (name : String) {v : NamedValue} (hv : v.Writable) :
    (e.setHeader name v).Writable := by
  refine ⟨h.body, ?_, h.properties⟩
  intro p hp
  rcases Assoc.mem_insert hp with rfl | hp
  · exact hv
  · exact h.headers p hp

theorem Writable.stamp (h : e.Writable) (attempt : UInt32) (maximum : Int32) :
    (e.stamp attempt maximum).Writable := by
  have hbool (b : Bool) : (NamedValue.bool b).Writable := ⟨trivial, trivial⟩
  have hint (n : Int64) : (NamedValue.int n).Writable := ⟨trivial, trivial⟩
  exact ((h.setHeader _ (hbool _)).setHeader _ (hint _)).setHeader _ (hint _)

theorem Recovered.writable (h : e.Recovered) : e.Writable := by
  induction h with
  | read h => exact Snapshot.writable_of_unmarshal h
  | stamp _ attempt maximum ih => exact ih.stamp attempt maximum

end Exchange

theorem Repository.unmarshal_of_fetchExchange {r : Repository} {raw : Bytes} {key : String}
    {s s' : Shelf} {e : Exchange} (h : r.fetchExchange raw key s = (.ok (some e), s')) :
    ∃ b, r.codec.unmarshal b = .ok e := by
  rw [fetchExchange] at h
  split at h
  · cases h
  · cases h
  · rename_i b _ _
    refine ⟨b, ?_⟩
    have hread : some <$> r.unmarshal key b = .ok (some e) := congrArg Prod.fst h
    rw [unmarshal] at hread
    cases hu : r.codec.unmarshal b with
    | error err =>
      rw [hu] at hread
      cases hread
    | ok y =>
      rw [hu] at hread
      cases hread
      rfl

def Phase.HandsOver (p : Phase) (e : Exchange) : Prop :=
  ∃ id, p = .redelivering id e ∨ p = .escalating id e

namespace Task

variable {σ : Type} {t : Task} {c c' : Cycle} {e : Exchange}

theorem stamp_of_route {id : String} {x : Exchange} {n : UInt32} (h : (t.route id x n).HandsOver e) :
    ∃ maximum, e = x.stamp n maximum := by
  refine ⟨t.repository.settings.maxRedeliveries, ?_⟩
  obtain ⟨i, h⟩ := h
  rw [route] at h
  split_ifs at h
  · rcases h with h | h <;> cases h
    rfl
  · rcases h with h | h <;> cases h
    rfl

theorem Steps.recovered {s s' : Shelf} {n n' : Counters} {d : Option Deed}
    (h : t.Steps c s n d c' s' n') (ht : t.repository.codec = Snapshot.codec)
    (he : c'.phase.HandsOver e) : e.Recovered := by
  cases h with
  | @read id x _ hp hx =>
    obtain ⟨maximum, rfl⟩ := stamp_of_route he
    rw [Repository.recover] at hx
    split_ifs at hx
    · obtain ⟨b, hb⟩ := Repository.unmarshal_of_fetchExchange hx
      rw [ht] at hb
      exact (Exchange.Recovered.read hb).stamp _ _
    · cases hx
  | passed hp hx hid =>
    obtain ⟨_, he | he⟩ := he <;> cases hp.symm.trans he
  | rested hp =>
    obtain ⟨_, he | he⟩ := he <;> cases hp.symm.trans he
  | _ => obtain ⟨_, he | he⟩ := he <;> cases he

theorem recovered_of_runUpTo (ht : t.repository.codec = Snapshot.codec) (k : Collaborators σ)
    (b : Bench σ) (fuel : Nat) (he : (t.runUpTo k fuel t.begin b).1.phase.HandsOver e) :
    e.Recovered := by
  have along (fuel : Nat) (c : Cycle) (b : Bench σ) (hc : ∀ e, c.phase.HandsOver e → e.Recovered) :
      (t.runUpTo k fuel c b).1.phase.HandsOver e → e.Recovered := by
    induction fuel generalizing c b with
    | zero => exact hc e
    | succ fuel ih =>
      by_cases hp : c.phase = .finished
      · rw [runUpTo_finished t k hp]
        exact hc e
      · rw [runUpTo_succ t k hp]
        obtain ⟨d, -, hsteps, -⟩ := t.step_acted k c b
        exact ih _ _ fun _ => hsteps.recovered ht
  refine along fuel t.begin b ?_ he
  rintro e ⟨_, h | h⟩ <;> cases h

end Task

namespace DeadLetter

variable {e : Exchange} {r : DeadLetter}

theorem ofExchange_of_writable (h : e.Writable) (destination : String) (now : Instant) :
    ∃ r, ofExchange destination e now = .ok r := by
  rw [ofExchange, Snapshot.marshal_of_writable h]
  exact ⟨_, rfl⟩

theorem ofExchange_of_offence {err : CodecError} (h : e.FirstOffence err) (destination : String)
    (now : Instant) : ofExchange destination e now = .error err := by
  have hm : Snapshot.marshal true e = .error err :=
    Snapshot.marshal_eq_error_iff.mpr (Snapshot.refuseNonFinite_eq_error_iff.mpr h)
  rw [ofExchange, hm]
  rfl

theorem exchange_of_writable {destination : String} {now : Instant} (h : e.Writable)
    (hr : ofExchange destination e now = .ok r) (hx : Reread (Snapshot.toJson e).floats) :
    r.exchange = .ok e := by
  have hreading : Snapshot.reading true e = .ok e := if_pos h.fits
  rw [exchange_of_ofExchange hr hx, hreading]
  rfl

theorem ofLine_compact (r : DeadLetter) : ofLine r.toJson.compact = .ok (some r) := by
  have h := ofLine_append (w := []) (Or.inl rfl) r
  rwa [List.nil_append, if_pos (by simp)] at h

end DeadLetter

namespace DeadLetterFile

open DeadLetter (ofLine)

variable {f : DeadLetterFile} {now : Instant} {destination : String} {e : Exchange} {d : Disk}

theorem send_of_ofExchange {r : DeadLetter} {a : Bytes}
    (hr : DeadLetter.ofExchange destination e now = .ok r)
    (ha : d.files.get? f.place = some (.bytes a)) :
    f.send now destination e d = (.ok (), d.put f.place (.bytes (a ++ r.line))) := by
  simp only [send, hr, append, ha]

theorem send_says_what_was_sent (f : DeadLetterFile) (now : Instant) (destination : String)
    (d : Disk) :
    (∀ e a, e.Recovered → d.files.get? f.place = some (.bytes a) →
      ∃ l r, f.send now destination e d =
          (.ok (), d.put f.place (.bytes (a ++ (l ++ [Ascii.lineFeed])))) ∧
        Ascii.lineFeed ∉ l ∧ ofLine l = .ok (some r) ∧ r.destination = destination ∧
        r.exchangeId = e.id ∧ (Reread (Snapshot.toJson e).floats → r.exchange = .ok e)) ∧
    ∀ e name x, (e.header? name = some (.float x) ∨ e.property? name = some (.float x)) →
      x.isFinite = false →
      ∃ err, e.FirstOffence err ∧ f.send now destination e d = (.error (.codec err), d) := by
  constructor
  · intro e a he ha
    obtain ⟨r, hr⟩ := DeadLetter.ofExchange_of_writable he.writable destination now
    have hrecords := DeadLetter.records_of_ofExchange hr
    refine ⟨r.toJson.compact, r, ?_, r.lineFeed_notMem_compact, r.ofLine_compact,
      hrecords.destination, hrecords.exchangeId, DeadLetter.exchange_of_writable he.writable hr⟩
    rw [send_of_ofExchange hr ha, DeadLetter.line]
  · intro e name x hv hx
    obtain ⟨err, herr⟩ := Snapshot.refuseNonFinite_fails_iff.mpr ⟨name, x, hv, hx⟩
    have hoffence := Snapshot.refuseNonFinite_eq_error_iff.mp herr
    refine ⟨err, hoffence, ?_⟩
    simp only [send, DeadLetter.ofExchange_of_offence hoffence]

namespace Stamped

def snapshot : Bytes := Bytes.ofString <|
  "\x7b\"version\":1,\"exchange_id\":\"m\\n1\",\"created_at\":\"2024-01-01T00:00:00Z\"," ++
  "\"body\":[1.5],\"headers\":\x7b\"h\":\x7b\"type\":\"object\",\"value\":[\"\\\"\"]\x7d\x7d," ++
  "\"properties\":\x7b\x7d\x7d"

theorem isDate_newYear : Instant.IsDate 2024 1 1 := by decide

theorem canonical_oneAndHalf : Binary64.Canonical 0x18000000000000 (-52) := by decide

def original : Exchange where
  id := "m\n1"
  createdAt := ⟨2024, 1, 1, 0, 0, 0, 0, isDate_newYear, Snapshot.isTime_midnight⟩
  body := .ofJson (.array [.number (.float ⟨false, 0x18000000000000, -52, canonical_oneAndHalf⟩)])
  headers := .ofList [("h", .object (.ofJson (.array [.text "\""])))]
  properties := .empty

def exchange : Exchange := (original.stamp 1 2).stamp 2 2

def unprintable : Exchange := exchange.setProperty "p" (.float .nan)

def disk : Disk := Disk.empty.put Torn.file.place (.bytes [])

theorem recovered_exchange : exchange.Recovered := by
  have hread : Snapshot.unmarshal snapshot = .ok original := by decide +kernel
  exact ((Exchange.Recovered.read hread).stamp 1 2).stamp 2 2

theorem reread_exchange : Reread (Snapshot.toJson exchange).floats := by
  have hf : (Snapshot.toJson exchange).floats =
      [⟨false, 0x18000000000000, -52, canonical_oneAndHalf⟩] := by
    decide +kernel
  rw [hf]
  intro x hm
  rw [List.mem_singleton.mp hm]
  rfl

theorem send_says_what_was_sent_stamped :
    (∃ l r, Torn.file.send Torn.now "a\n\"b\"" exchange disk =
        (.ok (), disk.put Torn.file.place (.bytes (l ++ [Ascii.lineFeed]))) ∧
      Ascii.lineFeed ∉ l ∧ ofLine l = .ok (some r) ∧ r.destination = "a\n\"b\"" ∧
      r.exchangeId = "m\n1" ∧ r.exchange = .ok exchange) ∧
    Torn.file.send Torn.now "a\n\"b\"" unprintable disk =
      (.error (.codec (.nonFinite "property" "p" .nan)), disk) := by
  obtain ⟨hsent, hrefused⟩ := send_says_what_was_sent Torn.file Torn.now "a\n\"b\"" disk
  constructor
  · have hcontent : disk.files.get? Torn.file.place = some (.bytes []) := rfl
    obtain ⟨l, r, hsend, hl, hline, hdestination, hid, hback⟩ :=
      hsent exchange [] recovered_exchange hcontent
    exact ⟨l, r, hsend, hl, hline, hdestination, hid, hback reread_exchange⟩
  · obtain ⟨err, hoffence, hsend⟩ := hrefused unprintable "p" .nan (Or.inr rfl) rfl
    have herr : Snapshot.refuseNonFinite unprintable = .error (.nonFinite "property" "p" .nan) := rfl
    rw [Snapshot.refuseNonFinite_eq_error_iff.mpr hoffence] at herr
    cases herr
    exact hsend

end Stamped

end DeadLetterFile

end Staging
