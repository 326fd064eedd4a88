import DbusBroker.Lib.RunningMean
import Mathlib.Data.Int.ModEq

/-!
# Samples of processor time

The sampler of `util/sampler.c` keeps the number of samples, their sum, their least and greatest one, their mean and
the sum of squares for the standard deviation, all in 64 bits. Arithmetic wraps around, and the division by a number
of samples that wrapped around to zero traps.
-/

namespace DbusBroker

/-- `SAMPLER_TIMESTAMP_INVALID`. -/
def samplerTimestampInvalid : UInt64 := 0 - 1

/-- `Sampler`. -/
structure Sampler where
  count : UInt64
  sum : UInt64
  minimum : UInt64
  maximum : UInt64
  average : UInt64
  id : ℤ
  timestamp : UInt64
  sumOfSquares : UInt64
deriving DecidableEq

/-- What `clock_gettime` answers. -/
structure Timespec where
  tvSec : UInt64
  tvNsec : UInt64

/-- `SAMPLER_INIT` and `sampler_init`. -/
def samplerInit (id : ℤ) : Sampler where
  count := 0
  sum := 0
  minimum := 0 - 1
  maximum := 0
  average := 0
  id := id
  timestamp := samplerTimestampInvalid
  sumOfSquares := 0

/-- `sampler_get_time`, given the time of the sampler's clock. -/
def samplerGetTime (ts : Timespec) : UInt64 := ts.tvSec * 1000000000 + ts.tvNsec

/-- `sampler_sample_add` at some time. The division by zero traps. -/
def samplerSampleAdd (sampler : Sampler) (now : Timespec) (timestamp : UInt64) : Option Sampler :=
  let sample := samplerGetTime now - timestamp
  let count := sampler.count + 1
  let sum := sampler.sum + sample
  let averageOld := sampler.average
  if count = 0 then none
  else
    let average := sum / count
    some { sampler with
      count := count
      sum := sum
      average := average
      sumOfSquares := sampler.sumOfSquares + (sample - averageOld) * (sample - average)
      minimum := if sample < sampler.minimum then sample else sampler.minimum
      maximum := if sampler.maximum < sample then sample else sampler.maximum }

/-- `sampler_sample_start`; a running sample fails the assertion. -/
def samplerSampleStart (sampler : Sampler) (now : Timespec) : Option Sampler :=
  if sampler.timestamp = samplerTimestampInvalid then some { sampler with timestamp := samplerGetTime now } else none

/-- `sampler_sample_end`; without a running sample the assertion fails. -/
def samplerSampleEnd (sampler : Sampler) (now : Timespec) : Option Sampler :=
  if sampler.timestamp = samplerTimestampInvalid then none
  else (samplerSampleAdd sampler now sampler.timestamp).map fun sampler =>
    { sampler with timestamp := samplerTimestampInvalid }

/-- `sampler_sample_add` for each of some samples, given by when each ends and starts. -/
def samplerAddAll (sampler : Sampler) (calls : List (Timespec × UInt64)) : Option Sampler :=
  calls.foldlM (fun sampler call => samplerSampleAdd sampler call.1 call.2) sampler

/-- The samples of some calls. -/
def samplesOf (calls : List (Timespec × UInt64)) : List ℕ :=
  calls.map fun call => (samplerGetTime call.1 - call.2).toNat

/-- A sample that is started and ended is added with its two times. -/
theorem samplerSampleEnd_of_start {sampler : Sampler} {start stop : Timespec}
    (hidle : sampler.timestamp = samplerTimestampInvalid) (hstart : samplerGetTime start ≠ samplerTimestampInvalid) :
    (samplerSampleStart sampler start).bind (fun sampler => samplerSampleEnd sampler stop) =
      samplerSampleAdd sampler stop (samplerGetTime start) := by
  rw [samplerSampleStart, if_pos hidle, Option.bind_some, samplerSampleEnd, if_neg hstart, samplerSampleAdd,
    samplerSampleAdd]
  dsimp only
  by_cases hcount : sampler.count + 1 = 0
  · rw [if_pos hcount, if_pos hcount, Option.map_none]
  · rw [if_neg hcount, if_neg hcount, Option.map_some, hidle]

/-- Samples that are started and ended one after the other, given by when each starts and ends. -/
def samplerTimeAll (sampler : Sampler) (times : List (Timespec × Timespec)) : Option Sampler :=
  times.foldlM (fun sampler time => (samplerSampleStart sampler time.1).bind (samplerSampleEnd · time.2)) sampler

/-- They are added one after the other. -/
theorem samplerTimeAll_eq {sampler : Sampler} (hidle : sampler.timestamp = samplerTimestampInvalid)
    {times : List (Timespec × Timespec)} (hstarts : ∀ time ∈ times, samplerGetTime time.1 ≠ samplerTimestampInvalid) :
    samplerTimeAll sampler times = samplerAddAll sampler (times.map fun time => (time.2, samplerGetTime time.1)) := by
  induction times generalizing sampler with
  | nil => rfl
  | cons time rest ih =>
    rw [samplerTimeAll, samplerAddAll, List.map_cons, List.foldlM_cons, List.foldlM_cons,
      samplerSampleEnd_of_start hidle (hstarts time List.mem_cons_self), samplerSampleAdd]
    dsimp only
    by_cases hcount : sampler.count + 1 = 0
    · rw [if_pos hcount]
      rfl
    · rw [if_neg hcount]
      exact ih hidle fun time htime => hstarts time (List.mem_cons_of_mem _ htime)

/-! ## Statistics -/

/-- A sampler has the statistics of some samples, whose sum and number fit. -/
structure Sampler.Describes (sampler : Sampler) (samples : List ℕ) : Prop where
  sum_lt : samples.sum < 2 ^ 64
  length_lt : samples.length < 2 ^ 64
  count : sampler.count.toNat = samples.length
  sum : sampler.sum.toNat = samples.sum
  average : sampler.average.toNat = RunningMean.mean samples
  minimum : sampler.minimum.toNat = samples.foldl min (2 ^ 64 - 1)
  maximum : sampler.maximum.toNat = samples.foldl max 0
  squares : (sampler.sumOfSquares.toNat : ℤ) ≡ RunningMean.squares samples [ZMOD 2 ^ 64]

section Words

variable (a b : UInt64)

/-- A difference of words is the difference of their numbers, up to multiples of `2 ^ 64`. -/
theorem toNat_sub_modEq : ((a - b).toNat : ℤ) ≡ a.toNat - b.toNat [ZMOD 2 ^ 64] := by
  have hb := b.toNat_lt
  have hcast : ((2 ^ 64 - b.toNat + a.toNat : ℕ) : ℤ) = a.toNat - b.toNat + 2 ^ 64 * 1 := by omega
  rw [UInt64.toNat_sub, Int.natCast_mod, hcast]
  exact (Int.mod_modEq _ _).trans Int.modEq_add_fac_self

/-- A product of words is the product of their numbers, up to multiples of `2 ^ 64`. -/
theorem toNat_mul_modEq : ((a * b).toNat : ℤ) ≡ a.toNat * b.toNat [ZMOD 2 ^ 64] := by
  rw [UInt64.toNat_mul, Int.natCast_mod, Int.natCast_mul]
  exact Int.mod_modEq _ _

/-- A sum of words is the sum of their numbers, up to multiples of `2 ^ 64`. -/
theorem toNat_add_modEq : ((a + b).toNat : ℤ) ≡ a.toNat + b.toNat [ZMOD 2 ^ 64] := by
  rw [UInt64.toNat_add, Int.natCast_mod, Int.natCast_add]
  exact Int.mod_modEq _ _

/-- A product of differences of words is the product of the differences, up to multiples of `2 ^ 64`. -/
theorem toNat_sub_mul_sub_modEq (c : UInt64) :
    (((a - b) * (a - c)).toNat : ℤ) ≡ ((a.toNat : ℤ) - b.toNat) * (a.toNat - c.toNat) [ZMOD 2 ^ 64] :=
  (toNat_mul_modEq _ _).trans ((toNat_sub_modEq a b).mul (toNat_sub_modEq a c))

end Words

section Run

variable {sampler : Sampler} {samples : List ℕ}

/-- A new sampler has the statistics of no samples. -/
theorem describes_samplerInit (id : ℤ) : (samplerInit id).Describes [] where
  sum_lt := Nat.two_pow_pos 64
  length_lt := Nat.two_pow_pos 64
  count := rfl
  sum := rfl
  average := rfl
  minimum := rfl
  maximum := rfl
  squares := Int.ModEq.refl 0

/-- A sample that fits is added to the statistics. -/
theorem Sampler.Describes.sampleAdd (h : sampler.Describes samples) (now : Timespec) (timestamp : UInt64)
    (hsum : (samples ++ [(samplerGetTime now - timestamp).toNat]).sum < 2 ^ 64)
    (hlength : (samples ++ [(samplerGetTime now - timestamp).toNat]).length < 2 ^ 64) :
    ∃ after, samplerSampleAdd sampler now timestamp = some after ∧
      after.Describes (samples ++ [(samplerGetTime now - timestamp).toNat]) ∧
      after.sumOfSquares = sampler.sumOfSquares + (samplerGetTime now - timestamp - sampler.average) *
        (samplerGetTime now - timestamp - after.average) := by
  obtain ⟨sample, hsample⟩ : ∃ sample, samplerGetTime now - timestamp = sample := ⟨_, rfl⟩
  rw [hsample] at hsum hlength ⊢
  have hsum' := hsum
  have hlength' := hlength
  rw [List.sum_append, List.sum_singleton] at hsum'
  rw [List.length_append, List.length_singleton] at hlength'
  have hcount : (sampler.count + 1).toNat = samples.length + 1 := by
    rw [UInt64.toNat_add, h.count]
    exact Nat.mod_eq_of_lt hlength'
  have htotal : (sampler.sum + sample).toNat = samples.sum + sample.toNat := by
    rw [UInt64.toNat_add, h.sum]
    exact Nat.mod_eq_of_lt hsum'
  have hne : sampler.count + 1 ≠ 0 := by
    intro heq
    rw [heq] at hcount
    exact Nat.succ_ne_zero _ hcount.symm
  have haverage : ((sampler.sum + sample) / (sampler.count + 1)).toNat =
      (samples.sum + sample.toNat) / (samples.length + 1) := by
    rw [UInt64.toNat_div, htotal, hcount]
  rw [samplerSampleAdd, hsample]
  dsimp only
  rw [if_neg hne]
  refine ⟨_, rfl, ?_, rfl⟩
  refine ⟨hsum, hlength, ?_, ?_, ?_, ?_, ?_, ?_⟩
  · rw [hcount, List.length_append, List.length_singleton]
  · rw [htotal, List.sum_append, List.sum_singleton]
  · rw [haverage, RunningMean.mean, List.sum_append, List.sum_singleton, List.length_append, List.length_singleton]
  · rw [List.foldl_append, List.foldl_cons, List.foldl_nil, ← h.minimum]
    by_cases hless : sample < sampler.minimum
    · rw [if_pos hless, Nat.min_eq_right (UInt64.lt_iff_toNat_lt.mp hless).le]
    · rw [if_neg hless, Nat.min_eq_left (Nat.le_of_not_lt fun hlt => hless (UInt64.lt_iff_toNat_lt.mpr hlt))]
  · rw [List.foldl_append, List.foldl_cons, List.foldl_nil, ← h.maximum]
    by_cases hless : sampler.maximum < sample
    · rw [if_pos hless, Nat.max_eq_right (UInt64.lt_iff_toNat_lt.mp hless).le]
    · rw [if_neg hless, Nat.max_eq_left (Nat.le_of_not_lt fun hlt => hless (UInt64.lt_iff_toNat_lt.mpr hlt))]
  · rw [RunningMean.squares_append_singleton, RunningMean.distances, ← RunningMean.mean, ← h.average, ← haverage]
    exact (toNat_add_modEq _ _).trans (h.squares.add (toNat_sub_mul_sub_modEq _ _ _))

/-- Samples that fit are all added to the statistics. -/
theorem describes_samplerAddAll (id : ℤ) {calls : List (Timespec × UInt64)} (hsum : (samplesOf calls).sum < 2 ^ 64)
    (hlength : calls.length < 2 ^ 64) :
    ∃ sampler, samplerAddAll (samplerInit id) calls = some sampler ∧ sampler.Describes (samplesOf calls) := by
  induction calls using List.reverseRecOn with
  | nil => exact ⟨samplerInit id, rfl, describes_samplerInit id⟩
  | append_singleton rest call ih =>
    have hsamples : samplesOf (rest ++ [call]) = samplesOf rest ++ [(samplerGetTime call.1 - call.2).toNat] :=
      List.map_append
    have hrestsum : (samplesOf rest).sum < 2 ^ 64 := by
      rw [hsamples, List.sum_append] at hsum
      exact Nat.lt_of_le_of_lt (Nat.le_add_right _ _) hsum
    have hrestlength : rest.length < 2 ^ 64 := by
      rw [List.length_append] at hlength
      exact Nat.lt_of_le_of_lt (Nat.le_add_right _ _) hlength
    obtain ⟨before, hbefore, hdescribes⟩ := ih hrestsum hrestlength
    have hfits : (samplesOf (rest ++ [call])).length < 2 ^ 64 := by
      rw [samplesOf, List.length_map]
      exact hlength
    rw [hsamples] at hsum hfits ⊢
    obtain ⟨after, hafter, hdescribes, _⟩ := hdescribes.sampleAdd call.1 call.2 hsum hfits
    refine ⟨after, ?_, hdescribes⟩
    rw [samplerAddAll, List.foldlM_append, ← samplerAddAll, hbefore]
    exact (Option.bind_some _ _).trans ((congrArg (· >>= some) hafter))

/-- What is above the start of a fold of minima or one of its numbers is above its result. -/
theorem foldl_min_le {bound x : ℕ} (h : bound ≤ x ∨ x ∈ samples) : samples.foldl min bound ≤ x := by
  induction samples generalizing bound with
  | nil => exact h.resolve_right List.not_mem_nil
  | cons first rest ih =>
    apply ih
    rw [List.mem_cons] at h
    obtain hbound | rfl | hrest := h
    · exact Or.inl ((Nat.min_le_left bound first).trans hbound)
    · exact Or.inl (Nat.min_le_right bound x)
    · exact Or.inr hrest

/-- What is below the start of a fold of maxima or one of its numbers is below its result. -/
theorem le_foldl_max {bound x : ℕ} (h : x ≤ bound ∨ x ∈ samples) : x ≤ samples.foldl max bound := by
  induction samples generalizing bound with
  | nil => exact h.resolve_right List.not_mem_nil
  | cons first rest ih =>
    apply ih
    rw [List.mem_cons] at h
    obtain hbound | rfl | hrest := h
    · exact Or.inl (hbound.trans (Nat.le_max_left bound first))
    · exact Or.inl (Nat.le_max_right bound x)
    · exact Or.inr hrest

/-- The mean of some samples is between the least and the greatest one. -/
theorem Sampler.Describes.average_between (h : sampler.Describes samples) (hne : samples ≠ []) :
    sampler.minimum ≤ sampler.average ∧ sampler.average ≤ sampler.maximum := by
  rw [UInt64.le_iff_toNat_le, UInt64.le_iff_toNat_le, h.minimum, h.average, h.maximum]
  exact ⟨RunningMean.le_mean hne fun x hx => foldl_min_le (Or.inr hx),
    RunningMean.mean_le fun x hx => le_foldl_max (Or.inr hx)⟩

/-- The sum of squares of a sampler is exact if it fits. -/
theorem Sampler.Describes.sumOfSquares_eq (h : sampler.Describes samples) (hfits : RunningMean.squares samples < 2 ^ 64) :
    (sampler.sumOfSquares.toNat : ℤ) = RunningMean.squares samples := by
  have hword := sampler.sumOfSquares.toNat_lt
  have heq : (sampler.sumOfSquares.toNat : ℤ) % 2 ^ 64 = RunningMean.squares samples % 2 ^ 64 := h.squares
  rwa [Int.emod_eq_of_lt (Int.natCast_nonneg _) (by omega),
    Int.emod_eq_of_lt (RunningMean.squares_nonneg samples) hfits] at heq

/-- What `sampler_sample_add` makes of a sampler with the statistics of some samples. -/
structure Sampler.Updated (before after : Sampler) (samples : List ℕ) (sample : ℕ) : Prop where
  average : after.average.toNat = (samples ++ [sample]).sum / (samples ++ [sample]).length
  minimum_le : after.minimum ≤ after.average
  le_maximum : after.average ≤ after.maximum
  product_nonneg : 0 ≤ ((sample : ℤ) - before.average.toNat) * (sample - after.average.toNat)
  increment : ((after.sumOfSquares - before.sumOfSquares).toNat : ℤ) =
    ((sample : ℤ) - before.average.toNat) * (sample - after.average.toNat) % 2 ^ 64
  squares_le : RunningMean.squares (samples ++ [sample]) < 2 ^ 64 → before.sumOfSquares ≤ after.sumOfSquares ∧
    (after.sumOfSquares.toNat : ℤ) = RunningMean.squares (samples ++ [sample])

/-- A sample that fits updates a sampler. -/
theorem Sampler.Describes.updated (h : sampler.Describes samples) (now : Timespec) (timestamp : UInt64)
    (hsum : (samples ++ [(samplerGetTime now - timestamp).toNat]).sum < 2 ^ 64)
    (hlength : (samples ++ [(samplerGetTime now - timestamp).toNat]).length < 2 ^ 64) :
    ∃ after, samplerSampleAdd sampler now timestamp = some after ∧
      sampler.Updated after samples (samplerGetTime now - timestamp).toNat := by
  obtain ⟨after, hafter, hdescribes, hincrement⟩ := h.sampleAdd now timestamp hsum hlength
  obtain ⟨sample, hsample⟩ : ∃ sample, samplerGetTime now - timestamp = sample := ⟨_, rfl⟩
  rw [hsample] at hsum hlength hdescribes hincrement ⊢
  have hproduct : ((sample.toNat : ℤ) - sampler.average.toNat) * (sample.toNat - after.average.toNat) =
      RunningMean.distances samples.sum samples.length sample.toNat := by
    rw [h.average, hdescribes.average, RunningMean.mean, RunningMean.mean, List.sum_append, List.sum_singleton,
      List.length_append, List.length_singleton]
    rfl
  have hempty : samples.length = 0 → samples.sum = 0 := RunningMean.sum_eq_zero_of_length_eq_zero
  have hnonneg := RunningMean.distances_nonneg hempty sample.toNat
  obtain ⟨hminimum, hmaximum⟩ := hdescribes.average_between (List.append_ne_nil_of_right_ne_nil _ (List.cons_ne_nil _ _))
  refine ⟨after, hafter, hdescribes.average, hminimum, hmaximum, hproduct ▸ hnonneg, ?_, fun hfits => ⟨?_, ?_⟩⟩
  · have hdifference : after.sumOfSquares - sampler.sumOfSquares =
        (sample - sampler.average) * (sample - after.average) := by
      rw [hincrement, UInt64.add_comm]
      exact UInt64.add_sub_cancel _ _
    have hword := (after.sumOfSquares - sampler.sumOfSquares).toNat_lt
    rw [← Int.emod_eq_of_lt (Int.natCast_nonneg _) (by omega : _ < (2 : ℤ) ^ 64), hdifference]
    exact toNat_sub_mul_sub_modEq sample sampler.average after.average
  · have hafterSquares := hdescribes.sumOfSquares_eq hfits
    rw [RunningMean.squares_append_singleton] at hfits hafterSquares
    have hbeforeSquares := h.sumOfSquares_eq (by omega)
    rw [UInt64.le_iff_toNat_le]
    omega
  · exact hdescribes.sumOfSquares_eq hfits

end Run

/-- Over any run of samples whose sum and number fit, the statistics are exact after each sample. -/
theorem samplerSampleAdd_exact (id : ℤ) (calls : List (Timespec × UInt64)) (now : Timespec) (timestamp : UInt64)
    (hsum : (samplesOf (calls ++ [(now, timestamp)])).sum < 2 ^ 64)
    (hlength : (calls ++ [(now, timestamp)]).length < 2 ^ 64) :
    ∃ before after, samplerAddAll (samplerInit id) calls = some before ∧
      samplerSampleAdd before now timestamp = some after ∧
      before.Updated after (samplesOf calls) (samplerGetTime now - timestamp).toNat := by
  have hsamples : samplesOf (calls ++ [(now, timestamp)]) =
      samplesOf calls ++ [(samplerGetTime now - timestamp).toNat] := List.map_append
  have hfits : (samplesOf (calls ++ [(now, timestamp)])).length < 2 ^ 64 := by
    rw [samplesOf, List.length_map]
    exact hlength
  have hcallsSum : (samplesOf calls).sum < 2 ^ 64 := by
    rw [hsamples, List.sum_append] at hsum
    exact Nat.lt_of_le_of_lt (Nat.le_add_right _ _) hsum
  have hcallsLength : calls.length < 2 ^ 64 := by
    rw [List.length_append] at hlength
    exact Nat.lt_of_le_of_lt (Nat.le_add_right _ _) hlength
  rw [hsamples] at hsum hfits
  obtain ⟨before, hbefore, hdescribes⟩ := describes_samplerAddAll id hcallsSum hcallsLength
  obtain ⟨after, hafter, hupdated⟩ := hdescribes.updated now timestamp hsum hfits
  exact ⟨before, after, hbefore, hafter, hupdated⟩

/-- Two samples of different length. -/
theorem samplerSampleAdd_exact_two : ∃ before after,
    samplerAddAll (samplerInit 3) [(⟨0, 40⟩, 10)] = some before ∧ samplerSampleAdd before ⟨0, 100⟩ 51 = some after ∧
      before.Updated after (samplesOf [(⟨0, 40⟩, 10)]) (samplerGetTime ⟨0, 100⟩ - 51).toNat :=
  samplerSampleAdd_exact 3 [(⟨0, 40⟩, 10)] ⟨0, 100⟩ 51 (by decide) (by decide)

/-- As many empty samples as a word has values: their sum fits, but their number is zero and the division traps. -/
theorem samplerAddAll_empty_samples : (samplesOf (List.replicate (2 ^ 64) (⟨0, 0⟩, 0))).sum < 2 ^ 64 ∧
    samplerAddAll (samplerInit 3) (List.replicate (2 ^ 64) (⟨0, 0⟩, 0)) = none := by
  have hsamples (n : ℕ) : (samplesOf (List.replicate n (⟨0, 0⟩, 0))).sum = 0 := by
    rw [samplesOf, List.map_replicate, List.sum_replicate]
    exact Nat.mul_zero n
  refine ⟨(hsamples (2 ^ 64)).symm ▸ Nat.two_pow_pos 64, ?_⟩
  have hlast : List.replicate (2 ^ 64) ((⟨0, 0⟩, 0) : Timespec × UInt64) =
      List.replicate (2 ^ 64 - 1) (⟨0, 0⟩, 0) ++ [(⟨0, 0⟩, 0)] := List.replicate_succ'
  obtain ⟨sampler, hrun, hdescribes⟩ := describes_samplerAddAll 3
    ((hsamples (2 ^ 64 - 1)).symm ▸ Nat.two_pow_pos 64) ((List.length_replicate).symm ▸ by omega)
  have hcount : sampler.count + 1 = 0 := by
    apply UInt64.toNat_inj.mp
    rw [UInt64.toNat_add, hdescribes.count, samplesOf, List.length_map, List.length_replicate]
    rfl
  have hnone : samplerSampleAdd sampler ⟨0, 0⟩ 0 = none := by
    rw [samplerSampleAdd, hcount]
    exact if_pos rfl
  rw [hlast, samplerAddAll, List.foldlM_append, ← samplerAddAll, hrun]
  exact (Option.bind_some _ _).trans (congrArg (· >>= some) hnone)

end DbusBroker
