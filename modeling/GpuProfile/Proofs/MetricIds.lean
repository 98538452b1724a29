import Mathlib
import GpuProfile.Profile.Compute

namespace GpuProfile

variable {α : Type}

namespace Metric

theorem ofCounter_id (place : ℕ) (c : Counter α) : (ofCounter place c).id = Int32.ofNat (place + 2) := by
  rw [Int32.ofNat_add, Int32.add_comm]
  rfl

theorem ofNat_inj_of_lt {i j : ℕ} (hi : i < UInt32.size) (hj : j < UInt32.size)
    (h : Int32.ofNat i = Int32.ofNat j) : i = j := by
  have hb : BitVec.ofNat 32 i = BitVec.ofNat 32 j := congrArg Int32.toBitVec h
  have hn := congrArg BitVec.toNat hb
  simp only [BitVec.toNat_ofNat] at hn
  simp only [UInt32.size] at hi hj
  omega

theorem ofCounter_id_inj {i j : ℕ} (hi : i + 2 < UInt32.size) (hj : j + 2 < UInt32.size) {c d : Counter α}
    (h : (ofCounter i c).id = (ofCounter j d).id) : i = j := by
  rw [ofCounter_id, ofCounter_id] at h
  have he := ofNat_inj_of_lt hi hj h
  omega

theorem ofCounter_id_ne_gpuTime {place : ℕ} (h : place + 2 < UInt32.size) (c : Counter α) :
    (ofCounter place c).id ≠ gpuTime.id := by
  intro he
  rw [ofCounter_id] at he
  have hz := ofNat_inj_of_lt h (by decide : 0 < UInt32.size) he
  omega

theorem ofCounter_id_ne_wallTime {place : ℕ} (h : place + 2 < UInt32.size) (c : Counter α) :
    (ofCounter place c).id ≠ wallTime.id := by
  intro he
  rw [ofCounter_id] at he
  have hz := ofNat_inj_of_lt h (by decide : 1 < UInt32.size) he
  omega

end Metric

theorem counterMetrics_ids (place : ℕ) (cs : List (Counter α)) :
    (counterMetrics place cs).map (·.id) = (List.range' (place + 2) cs.length).map Int32.ofNat := by
  induction cs generalizing place with
  | nil => rfl
  | cons c rest ih =>
    rw [counterMetrics, List.map_cons, ih, Metric.ofCounter_id, List.length_cons, List.range'_succ, List.map_cons]

theorem mem_counterMetrics {m : Metric} {place : ℕ} {cs : List (Counter α)} :
    m ∈ counterMetrics place cs ↔ ∃ k c, cs[k]? = some c ∧ m = Metric.ofCounter (place + k) c := by
  induction cs generalizing place with
  | nil => simp [counterMetrics]
  | cons c rest ih =>
    rw [counterMetrics, List.mem_cons, ih]
    constructor
    · rintro (rfl | ⟨k, d, hk, rfl⟩)
      · exact ⟨0, c, rfl, rfl⟩
      · exact ⟨k + 1, d, hk, by rw [Nat.add_assoc, Nat.add_comm 1]⟩
    · rintro ⟨k, d, hk, rfl⟩
      cases k with
      | zero =>
        simp only [List.getElem?_cons_zero, Option.some.injEq] at hk
        exact .inl (by rw [hk]; rfl)
      | succ k => exact .inr ⟨k, d, hk, by rw [Nat.add_assoc, Nat.add_comm 1]⟩

namespace Profile

variable {cs : List (Counter α)}

theorem metricsOf_ids (cs : List (Counter α)) :
    (metricsOf cs).map (·.id) = (List.range (cs.length + 2)).map Int32.ofNat := by
  rw [metricsOf, List.map_cons, List.map_cons, counterMetrics_ids, List.range_eq_range', List.range'_succ,
    List.range'_succ]
  rfl

-- With more counters than this an identifier comes back, and the later counter takes its place.
theorem nodup_metricsOf_ids (h : cs.length + 2 ≤ UInt32.size) : ((metricsOf cs).map (·.id)).Nodup := by
  rw [metricsOf_ids]
  apply List.Nodup.map_on
  · intro i hi j hj he
    rw [List.mem_range] at hi hj
    exact Metric.ofNat_inj_of_lt (by omega) (by omega) he
  · exact List.nodup_range

theorem metricsOf_ids_toInt (h : cs.length + 2 ≤ 2 ^ 31) :
    (metricsOf cs).map (·.id.toInt) = (List.range (cs.length + 2)).map Int.ofNat := by
  have hids := congrArg (List.map Int32.toInt) (metricsOf_ids cs)
  rw [List.map_map, List.map_map] at hids
  refine hids.trans (List.map_congr_left fun i hi => ?_)
  rw [List.mem_range] at hi
  exact Int32.toInt_ofNat_of_lt (by omega)

theorem metricsOf_ids_ascending (h : cs.length + 2 ≤ 2 ^ 31) :
    ((metricsOf cs).map (·.id)).Pairwise (compare · · = .lt) := by
  have hrange : ((metricsOf cs).map (·.id.toInt)).Pairwise (· < ·) := by
    rw [metricsOf_ids_toInt h, List.pairwise_map]
    exact List.pairwise_lt_range.imp Int.ofNat_lt.mpr
  rw [List.pairwise_map] at hrange ⊢
  exact hrange.imp fun hlt => Std.compare_eq_lt.mpr (Int32.lt_iff_toInt_lt.mpr hlt)

theorem mem_metricsOf {m : Metric} : m ∈ metricsOf cs ↔
    m = Metric.gpuTime ∨ m = Metric.wallTime ∨ ∃ k c, cs[k]? = some c ∧ m = Metric.ofCounter k c := by
  simp [metricsOf, mem_counterMetrics]

theorem ofCounter_mem_metricsOf {k : ℕ} {c : Counter α} (h : cs[k]? = some c) :
    Metric.ofCounter k c ∈ metricsOf cs :=
  mem_metricsOf.mpr (.inr (.inr ⟨k, c, h, rfl⟩))

end Profile

end GpuProfile
