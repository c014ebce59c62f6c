import Outreach.Library.Calendar
import Outreach.Library.Binary64
import Outreach.Library.Listing

/-!
# Business time: `salesforce/inbound_gap.py`

`business_seconds` walks over the dates between two `datetime`s and adds up what
of them lies in the business hours. Clocks are in microseconds from the start of
year 1, which is a Monday; what `zoneinfo` knows is a function of the instant.
-/

namespace Outreach.Salesforce.InboundGap

open Outreach.Library

set_option autoImplicit false

/-! ## The clock -/

def microsecondsPerHour : Int := 1000000 * 3600

def date (clock : Int) : Int := Calendar.date microsecondsPerHour clock

/-- `date.max`, the 31st of December 9999 -/
def lastDate : Int := 3652058

/-- The clock shows one of the years that a `datetime` has. -/
def InYears (clock : Int) : Prop := 0 ≤ clock ∧ date clock ≤ lastDate

instance (clock : Int) : Decidable (InYears clock) := by
  unfold InYears
  infer_instance

/-- An aware `datetime` with its `tzinfo`, which is compared by identity. -/
structure Zoned (ζ : Type) extends Aware where
  zone : ζ
  inYears : InYears clock

namespace Zoned

variable {ζ : Type} [DecidableEq ζ]

/-- `a <= b`; in one zone the clocks are compared and not the instants. -/
def le (a b : Zoned ζ) : Bool :=
  if a.zone = b.zone then decide (a.clock ≤ b.clock) else decide (a.instant ≤ b.instant)

/-- `none` is the `OverflowError` at either end of the years. -/
def astimezone (utcoffset : ζ → Int → Int) (tz : ζ) (d : Zoned ζ) : Option (Zoned ζ) :=
  if d.zone = tz then some d
  else if InYears d.instant then
    if h : InYears (d.instant + utcoffset tz d.instant) then
      some ⟨⟨d.instant + utcoffset tz d.instant, utcoffset tz d.instant⟩, tz, h⟩
    else none
  else none

end Zoned

/-! ## `business_seconds` -/

/-- `datetime.combine(day, time(hour), tzinfo=tz)`; `none` is the `ValueError` of `time`. -/
def combine (day hour : Int) : Option Int :=
  if 0 ≤ hour ∧ hour < 24 then some (day * (24 * microsecondsPerHour) + hour * microsecondsPerHour)
  else none

/-- `day.weekday() < 5` -/
def isBusinessDay (day : Int) : Bool := decide (day % 7 < 5)

def totalSeconds (microseconds : Int) : ℚ := Binary64.round (microseconds / 1000000)

section BusinessSeconds

variable (startLocal endLocal startHour endHour : Int)

/-- The body of the loop, but for the step to the next day. -/
def addDay (day : Int) (total : ℚ) : Option ℚ :=
  if isBusinessDay day then do
    let opens ← combine day startHour
    let closes ← combine day endHour
    let low := max startLocal opens
    let high := min endLocal closes
    if low < high then some (Binary64.round (total + totalSeconds (high - low))) else some total
  else some total

/-- `day += timedelta(days=1)` overflows after the last date. -/
def dayLoop (day : Int) (total : ℚ) : Option ℚ :=
  if day ≤ date endLocal then
    (addDay startLocal endLocal startHour endHour day total).bind fun total =>
      if day = lastDate then none else dayLoop (day + 1) total
  else some total
termination_by (date endLocal + 1 - day).toNat

end BusinessSeconds

def businessSeconds {ζ : Type} [DecidableEq ζ] (utcoffset : ζ → Int → Int) (start end_ : Zoned ζ)
    (tz : ζ) (startHour endHour : Int) : Option ℚ :=
  if end_.le start then some 0
  else do
    let startLocal ← start.astimezone utcoffset tz
    let endLocal ← end_.astimezone utcoffset tz
    dayLoop startLocal.clock endLocal.clock startHour endHour (date startLocal.clock) 0

/-! ## What is claimed -/

/-- `total += seconds` for the microseconds of a date, if there are any. -/
def addTicks (total : ℚ) (ticks : ℕ) : ℚ :=
  if ticks = 0 then total
  else Binary64.round (total + Binary64.round (ticks / 1000000))

/-- The sum over `n` dates from `day` on. -/
def runningSum (f : Int → ℕ) : Int → ℕ → ℚ → ℚ
  | _, 0, total => total
  | day, n + 1, total => runningSum f (day + 1) n (addTicks total (f day))

section Claim

variable {ζ : Type} [DecidableEq ζ] (utcoffset : ζ → Int → Int) (tz : ζ) (startHour endHour : Int)

/-- The wall clock in `tz`. -/
def wall (d : Zoned ζ) : Option Int := (d.astimezone utcoffset tz).map (·.clock)

/-- The business time between two wall clocks, date by date. -/
noncomputable def elapsed (S E : Int) : ℚ :=
  runningSum (Calendar.dayTicks microsecondsPerHour startHour endHour S E) (date S)
    (date E + 1 - date S).toNat 0

/-- The number of seconds of business time between two wall clocks that show whole seconds. -/
noncomputable def secondsBetween (S E : Int) : ℕ :=
  Calendar.ticks 3600 startHour endHour (S / 1000000) (E / 1000000)

/-- The wall clocks are in order, and the guard does not cut the interval off. -/
def InOrder (a b : Zoned ζ) (A B : Int) : Prop :=
  wall utcoffset tz a = some A ∧ wall utcoffset tz b = some B ∧ A ≤ B ∧ (A = B ∨ b.le a = false)

def WholeSeconds (clock : Int) : Prop := 1000000 ∣ clock

/-- What `business_seconds` returns, with `S`, `M` and `E` for the wall clocks in `tz`; the end
is before the last of all dates. -/
structure MeasuresBusinessTime : Prop where
  /-- an interval that is empty as the code compares its ends -/
  cut : ∀ start end_, end_.le start = true →
    businessSeconds utcoffset start end_ tz startHour endHour = some 0
  /-- date by date, each date rounded and added -/
  daily : ∀ start end_ S E, wall utcoffset tz start = some S → wall utcoffset tz end_ = some E →
    end_.le start = false → date E < lastDate →
      businessSeconds utcoffset start end_ tz startHour endHour =
        some (elapsed startHour endHour S E)
  /-- the number of seconds -/
  seconds : ∀ start end_ S E, wall utcoffset tz start = some S → wall utcoffset tz end_ = some E →
    end_.le start = false → date E < lastDate → WholeSeconds S → WholeSeconds E →
      businessSeconds utcoffset start end_ tz startHour endHour =
        some (secondsBetween startHour endHour S E : ℚ)
  empty : ∀ start end_ S E, wall utcoffset tz start = some S → wall utcoffset tz end_ = some E →
    date E < lastDate → E ≤ S ∨ endHour ≤ startHour →
      businessSeconds utcoffset start end_ tz startHour endHour = some 0
  additive : ∀ start mid end_ S M E, InOrder utcoffset tz start mid S M →
    InOrder utcoffset tz mid end_ M E → InOrder utcoffset tz start end_ S E → date E < lastDate →
      WholeSeconds S → WholeSeconds M → WholeSeconds E →
        ∃ r r', businessSeconds utcoffset start mid tz startHour endHour = some r ∧
          businessSeconds utcoffset mid end_ tz startHour endHour = some r' ∧
          businessSeconds utcoffset start end_ tz startHour endHour = some (r + r')
  /-- later ends and earlier starts give no less -/
  monotone : ∀ start start' end_ end' S S' E E', InOrder utcoffset tz start end_ S E →
    InOrder utcoffset tz start' end' S' E' → S' ≤ S → E ≤ E' → date E' < lastDate →
      ∃ r r', businessSeconds utcoffset start end_ tz startHour endHour = some r ∧
        businessSeconds utcoffset start' end' tz startHour endHour = some r' ∧ r ≤ r'

end Claim

/-! ## The loop -/

theorem microsecondsPerHour_pos : 0 < microsecondsPerHour := by decide

theorem date_mono {x y : Int} (h : x ≤ y) : date x ≤ date y :=
  Calendar.date_mono microsecondsPerHour_pos h

section Loop

variable {S E startHour endHour : Int}

theorem combine_eq {hour : Int} (h : 0 ≤ hour ∧ hour < 24) (day : Int) :
    combine day hour =
      some (day * (24 * microsecondsPerHour) + hour * microsecondsPerHour) :=
  if_pos h

/-- One round of the loop adds the ticks of its date. -/
theorem addDay_eq (hstart : 0 ≤ startHour ∧ startHour < 24) (hend : 0 ≤ endHour ∧ endHour < 24)
    (day : Int) (total : ℚ) :
    addDay S E startHour endHour day total =
      some (addTicks total
        (Calendar.dayTicks microsecondsPerHour startHour endHour S E day)) := by
  unfold addDay isBusinessDay
  by_cases hday : day % 7 < 5
  · rw [if_pos (decide_eq_true hday), combine_eq hstart, combine_eq hend,
      Calendar.dayTicks_weekday microsecondsPerHour_pos hstart.1 hend.2.le S E hday]
    simp only [Option.bind_eq_bind, Option.bind_some]
    generalize max S (day * (24 * microsecondsPerHour) + startHour * microsecondsPerHour) = low
    generalize min E (day * (24 * microsecondsPerHour) + endHour * microsecondsPerHour) = high
    split
    · rename_i hless
      have hticks : ((high - low).toNat : ℤ) = high - low := Int.toNat_of_nonneg (by omega)
      have hcast : ((high - low).toNat : ℚ) = ((high - low : ℤ) : ℚ) := by exact_mod_cast hticks
      rw [addTicks, if_neg (by omega), hcast, totalSeconds]
    · rename_i hless
      rw [addTicks, if_pos (by omega)]
  · rw [if_neg (by simpa using hday), Calendar.dayTicks_weekend hday, addTicks, if_pos rfl]

/-- The loop ends after the date of `end`, unless that is the last of all dates. -/
theorem dayLoop_eq (hstart : 0 ≤ startHour ∧ startHour < 24) (hend : 0 ≤ endHour ∧ endHour < 24)
    (hlast : date E < lastDate) (day : Int) (total : ℚ) :
    dayLoop S E startHour endHour day total =
      some (runningSum (Calendar.dayTicks microsecondsPerHour startHour endHour S E) day
        (date E + 1 - day).toNat total) := by
  obtain ⟨n, hn⟩ : ∃ n, n = (date E + 1 - day).toNat := ⟨_, rfl⟩
  rw [← hn]
  induction n generalizing day total with
  | zero =>
    rw [dayLoop, if_neg (by omega), runningSum]
  | succ n ih =>
    rw [dayLoop, if_pos (by omega), addDay_eq hstart hend, Option.bind_some, if_neg (by omega),
      ih _ _ (by omega), runningSum]

/-- Where `end` is on the last of all dates, the step after it overflows. -/
theorem dayLoop_lastDate (hstart : 0 ≤ startHour ∧ startHour < 24)
    (hend : 0 ≤ endHour ∧ endHour < 24) (hlast : date E = lastDate) {day : Int}
    (hday : day ≤ lastDate) (total : ℚ) : dayLoop S E startHour endHour day total = none := by
  obtain ⟨n, hn⟩ := Int.le.dest hday
  induction n generalizing day total with
  | zero =>
    rw [dayLoop, if_pos (by omega), addDay_eq hstart hend, Option.bind_some, if_pos (by omega)]
  | succ n ih =>
    rw [dayLoop, if_pos (by omega), addDay_eq hstart hend, Option.bind_some, if_neg (by omega)]
    exact ih (by omega) _ (by omega)

end Loop

section Sum

variable {f g : Int → ℕ}

theorem runningSum_add (f : Int → ℕ) (day : Int) (m n : ℕ) (total : ℚ) :
    runningSum f day (m + n) total = runningSum f (day + m) n (runningSum f day m total) := by
  induction m generalizing day total with
  | zero => simp [runningSum]
  | succ m ih =>
    rw [Nat.succ_add, runningSum, runningSum, ih]
    congr 1
    push_cast
    ring

/-- Dates without business time change nothing. -/
theorem runningSum_eq_self {day : Int} {n : ℕ} (h : ∀ d, day ≤ d → d < day + n → f d = 0)
    (total : ℚ) : runningSum f day n total = total := by
  induction n generalizing day with
  | zero => rfl
  | succ n ih =>
    rw [runningSum, addTicks, if_pos (h day le_rfl (by omega))]
    exact ih fun d hlow hhigh => h d (by omega) (by omega)

/-- A total of the loop: not negative, and a `float`. -/
def IsTotal (total : ℚ) : Prop := 0 ≤ total ∧ Binary64.round total = total

theorem IsTotal.addTicks {total : ℚ} (h : IsTotal total) (ticks : ℕ) :
    IsTotal (addTicks total ticks) := by
  unfold InboundGap.addTicks
  split
  · exact h
  · exact ⟨Binary64.round_nonneg (add_nonneg h.1 (Binary64.round_nonneg (by positivity))),
      Binary64.round_round _⟩

theorem addTicks_mono {total total' : ℚ} {m n : ℕ} (h : IsTotal total) (htotal : total ≤ total')
    (hticks : m ≤ n) : addTicks total m ≤ addTicks total' n := by
  have hpart : (0 : ℚ) ≤ Binary64.round (m / 1000000) := Binary64.round_nonneg (by positivity)
  have hparts : Binary64.round ((m : ℚ) / 1000000) ≤ Binary64.round (n / 1000000) := by
    refine Binary64.round_mono (by positivity) ?_
    gcongr
  unfold addTicks
  split_ifs with hm hn hn
  · exact htotal
  · rw [← h.2]
    refine Binary64.round_mono h.1 ?_
    linarith
  · omega
  · refine Binary64.round_mono (add_nonneg h.1 hpart) ?_
    linarith

theorem runningSum_mono (h : ∀ d, f d ≤ g d) (day : Int) (n : ℕ) {total total' : ℚ}
    (htotal : IsTotal total) (hle : total ≤ total') :
    runningSum f day n total ≤ runningSum g day n total' := by
  induction n generalizing day total total' with
  | zero => exact hle
  | succ n ih => exact ih _ (htotal.addTicks _) (addTicks_mono htotal hle (h day))

theorem sum_dates_succ (g : Int → ℕ) (day : Int) (n : ℕ) :
    ∑ d ∈ Finset.Ico day (day + (n + 1 : ℕ)), g d =
      g day + ∑ d ∈ Finset.Ico (day + 1) (day + 1 + n), g d := by
  have hdates : Finset.Ico day (day + (n + 1 : ℕ)) =
      insert day (Finset.Ico (day + 1) (day + 1 + n)) := by
    ext d
    simp only [Finset.mem_insert, Finset.mem_Ico]
    omega
  rw [hdates, Finset.sum_insert (by simp)]

theorem addTicks_seconds {k s : ℕ} (h : k + s ≤ 2 ^ 53) :
    addTicks k (1000000 * s) = ((k + s : ℕ) : ℚ) := by
  have hround : ∀ n : ℕ, n ≤ 2 ^ 53 → Binary64.round n = n := fun n hn =>
    Binary64.round_intCast (n := n) (by rw [Nat.abs_cast]; exact_mod_cast hn)
  have hpart : ((1000000 * s : ℕ) : ℚ) / 1000000 = s := by
    push_cast
    ring
  unfold addTicks
  split
  · rename_i hzero
    obtain rfl : s = 0 := by omega
    rfl
  · rw [hpart, hround s (by omega), ← Nat.cast_add, hround _ h]

/-- Whole seconds are added without rounding. -/
theorem runningSum_seconds (h : ∀ d, f d = 1000000 * g d) (day : Int) (n k : ℕ)
    (hbound : k + ∑ d ∈ Finset.Ico day (day + n), g d ≤ 2 ^ 53) :
    runningSum f day n k = ((k + ∑ d ∈ Finset.Ico day (day + n), g d : ℕ) : ℚ) := by
  induction n generalizing day k with
  | zero => simp [runningSum]
  | succ n ih =>
    rw [sum_dates_succ, ← Nat.add_assoc] at hbound ⊢
    rw [runningSum, h, addTicks_seconds (by omega)]
    exact ih _ _ hbound

end Sum

/-! ## Between two wall clocks -/

section Elapsed

variable {startHour endHour : Int}

/-- The sum may begin before the first date and go on after the last. -/
theorem runningSum_eq_elapsed {S E day : Int} {n : ℕ} (h : S ≤ E) (hday : day ≤ date S)
    (hn : date E < day + n) :
    runningSum (Calendar.dayTicks microsecondsPerHour startHour endHour S E) day n 0 =
      elapsed startHour endHour S E := by
  have hdates := date_mono h
  obtain ⟨m, hm⟩ : ∃ m : ℕ, date S = day + m := Int.le.dest hday |>.imp fun _ h => h.symm
  obtain ⟨r, rfl⟩ : ∃ r : ℕ, n = m + ((date E + 1 - date S).toNat + r) :=
    ⟨n - (m + (date E + 1 - date S).toNat), by omega⟩
  have hbefore : ∀ d, day ≤ d → d < day + m →
      Calendar.dayTicks microsecondsPerHour startHour endHour S E d = 0 := fun d _ hhigh =>
    Calendar.dayTicks_eq_zero microsecondsPerHour_pos (Or.inl (show d < date S by omega))
  rw [runningSum_add, runningSum_add, ← hm, runningSum_eq_self hbefore, elapsed]
  refine runningSum_eq_self (fun d hlow _ => ?_) _
  exact Calendar.dayTicks_eq_zero microsecondsPerHour_pos (Or.inr (show date E < d by omega))

theorem elapsed_mono {S S' E E' : Int} (hS : S' ≤ S) (h : S ≤ E) (hE : E ≤ E') :
    elapsed startHour endHour S E ≤ elapsed startHour endHour S' E' := by
  have hfirst := date_mono hS
  have hlast := date_mono hE
  have hdates := date_mono h
  have hlonger : runningSum (Calendar.dayTicks microsecondsPerHour startHour endHour S E) (date S')
      (date E' + 1 - date S').toNat 0 = elapsed startHour endHour S E :=
    runningSum_eq_elapsed h hfirst (by omega)
  rw [← hlonger, elapsed]
  exact runningSum_mono (Calendar.dayTicks_mono hS hE) _ _ ⟨le_rfl, Binary64.round_zero⟩ le_rfl

theorem elapsed_eq_zero {S E : Int} (h : E ≤ S ∨ endHour ≤ startHour) :
    elapsed startHour endHour S E = 0 := by
  refine runningSum_eq_self (fun d _ _ => ?_) 0
  refine Nat.le_zero.mp ((Calendar.dayTicks_le_ticks S E d).trans_eq ?_)
  exact Calendar.ticks_eq_zero h microsecondsPerHour_pos

theorem date_seconds (s : Int) : date (1000000 * s) = Calendar.date 3600 s :=
  Calendar.date_scale (by decide) s

theorem dayTicks_seconds (hstart : 0 ≤ startHour) (hend : endHour ≤ 24) (s e d : Int) :
    Calendar.dayTicks microsecondsPerHour startHour endHour (1000000 * s) (1000000 * e) d =
      1000000 * Calendar.dayTicks 3600 startHour endHour s e d := by
  have h : (Calendar.dayTicks (1000000 * 3600) startHour endHour (1000000 * s) (1000000 * e) d : ℤ) =
      1000000 * Calendar.dayTicks 3600 startHour endHour s e d :=
    Calendar.dayTicks_scale (by decide) hstart hend (by decide) s e d
  exact_mod_cast h

/-- The seconds of the dates that the loop walks over are those of the interval. -/
theorem sum_dayTicks_seconds {s e : Int} (h : s ≤ e) :
    ∑ d ∈ Finset.Ico (date (1000000 * s))
        (date (1000000 * s) + (date (1000000 * e) + 1 - date (1000000 * s)).toNat),
      Calendar.dayTicks 3600 startHour endHour s e d =
        Calendar.ticks 3600 startHour endHour s e := by
  have hdates : Calendar.date 3600 s ≤ Calendar.date 3600 e := Calendar.date_mono (by decide) h
  have hIco : Finset.Ico (date (1000000 * s))
      (date (1000000 * s) + (date (1000000 * e) + 1 - date (1000000 * s)).toNat) =
        Finset.Icc (Calendar.date 3600 s) (Calendar.date 3600 e) := by
    ext d
    rw [date_seconds, date_seconds, Finset.mem_Ico, Finset.mem_Icc]
    omega
  rw [hIco, Calendar.ticks_eq_sum (by decide)]

/-- All the seconds from year 1 to year 9999 fit into a `float`. -/
theorem ticks_lt_mantissa {s e : Int} (hs : InYears (1000000 * s)) (he : InYears (1000000 * e)) :
    Calendar.ticks 3600 startHour endHour s e ≤ 2 ^ 53 := by
  have hcount : Calendar.ticks 3600 startHour endHour s e ≤ (e - s).toNat := Calendar.ticks_le s e
  have hpositive := hs.1
  have hrange := he.2
  rw [date_seconds, Calendar.date, lastDate] at hrange
  omega

/-- Between clocks that show whole seconds, the sum is the number of seconds. -/
theorem elapsed_seconds (hstart : 0 ≤ startHour) (hend : endHour ≤ 24) {s e : Int}
    (hs : InYears (1000000 * s)) (he : InYears (1000000 * e)) :
    elapsed startHour endHour (1000000 * s) (1000000 * e) =
      Calendar.ticks 3600 startHour endHour s e := by
  rcases le_or_gt e s with hempty | horder
  · rw [elapsed_eq_zero (Or.inl (by omega)),
      Calendar.ticks_eq_zero (Or.inl hempty) (by decide), Nat.cast_zero]
  · have hsum : _ = Calendar.ticks 3600 startHour endHour s e := sum_dayTicks_seconds horder.le
    have hbound : 0 + Calendar.ticks 3600 startHour endHour s e ≤ 2 ^ 53 := by
      rw [Nat.zero_add]
      exact ticks_lt_mantissa hs he
    rw [← hsum] at hbound ⊢
    have h := runningSum_seconds (dayTicks_seconds hstart hend s e) (date (1000000 * s)) _ 0 hbound
    rw [Nat.zero_add, Nat.cast_zero] at h
    exact h

end Elapsed

/-! ## Between two instants -/

section Instants

variable {ζ : Type} [DecidableEq ζ] {utcoffset : ζ → Int → Int} {tz : ζ} {startHour endHour : Int}
  {start end_ : Zoned ζ} {S E : Int}

theorem wall_inYears {d : Zoned ζ} {clock : Int} (h : wall utcoffset tz d = some clock) :
    InYears clock := by
  obtain ⟨there, -, rfl⟩ := Option.map_eq_some_iff.mp h
  exact there.inYears

theorem businessSeconds_cut (h : end_.le start = true) :
    businessSeconds utcoffset start end_ tz startHour endHour = some 0 :=
  if_pos h

theorem businessSeconds_eq (hstart : 0 ≤ startHour ∧ startHour < 24)
    (hend : 0 ≤ endHour ∧ endHour < 24) (hS : wall utcoffset tz start = some S)
    (hE : wall utcoffset tz end_ = some E) (hle : end_.le start = false)
    (hlast : date E < lastDate) :
    businessSeconds utcoffset start end_ tz startHour endHour =
      some (elapsed startHour endHour S E) := by
  obtain ⟨startLocal, hstartLocal, rfl⟩ := Option.map_eq_some_iff.mp hS
  obtain ⟨endLocal, hendLocal, rfl⟩ := Option.map_eq_some_iff.mp hE
  rw [businessSeconds, if_neg (by rw [hle]; exact Bool.false_ne_true), hstartLocal, hendLocal]
  exact dayLoop_eq hstart hend hlast _ 0

/-- An interval that ends on the last of all dates raises. -/
theorem businessSeconds_lastDate (hstart : 0 ≤ startHour ∧ startHour < 24)
    (hend : 0 ≤ endHour ∧ endHour < 24) (hS : wall utcoffset tz start = some S)
    (hE : wall utcoffset tz end_ = some E) (hle : end_.le start = false)
    (hlast : date E = lastDate) :
    businessSeconds utcoffset start end_ tz startHour endHour = none := by
  have hfirst : date S ≤ lastDate := (wall_inYears hS).2
  obtain ⟨startLocal, hstartLocal, rfl⟩ := Option.map_eq_some_iff.mp hS
  obtain ⟨endLocal, hendLocal, rfl⟩ := Option.map_eq_some_iff.mp hE
  rw [businessSeconds, if_neg (by rw [hle]; exact Bool.false_ne_true), hstartLocal, hendLocal]
  exact dayLoop_lastDate hstart hend hlast hfirst 0

theorem businessSeconds_inOrder (hstart : 0 ≤ startHour ∧ startHour < 24)
    (hend : 0 ≤ endHour ∧ endHour < 24) (h : InOrder utcoffset tz start end_ S E)
    (hlast : date E < lastDate) :
    businessSeconds utcoffset start end_ tz startHour endHour =
      some (elapsed startHour endHour S E) := by
  obtain ⟨hS, hE, -, hguard⟩ := h
  cases hle : end_.le start with
  | false => exact businessSeconds_eq hstart hend hS hE hle hlast
  | true =>
    obtain rfl := hguard.resolve_right (by rw [hle]; decide)
    rw [businessSeconds_cut hle, elapsed_eq_zero (Or.inl le_rfl)]

theorem elapsed_wholeSeconds (hstart : 0 ≤ startHour) (hend : endHour ≤ 24) (hS : InYears S)
    (hE : InYears E) (hSwhole : WholeSeconds S) (hEwhole : WholeSeconds E) :
    elapsed startHour endHour S E = secondsBetween startHour endHour S E := by
  obtain ⟨s, rfl⟩ := hSwhole
  obtain ⟨e, rfl⟩ := hEwhole
  rw [secondsBetween, Int.mul_ediv_cancel_left _ (by decide), Int.mul_ediv_cancel_left _ (by decide)]
  exact elapsed_seconds hstart hend hS hE

end Instants

/-- `business_seconds` measures business time between the wall clocks, where its guard lets the
interval through. -/
theorem businessSeconds_measures {ζ : Type} [DecidableEq ζ] (utcoffset : ζ → Int → Int) (tz : ζ)
    {startHour endHour : Int} (hstart : 0 ≤ startHour ∧ startHour < 24)
    (hend : 0 ≤ endHour ∧ endHour < 24) :
    MeasuresBusinessTime utcoffset tz startHour endHour where
  cut start end_ h := businessSeconds_cut h
  daily start end_ S E hS hE hle hlast := businessSeconds_eq hstart hend hS hE hle hlast
  seconds start end_ S E hS hE hle hlast hSwhole hEwhole := by
    rw [businessSeconds_eq hstart hend hS hE hle hlast, elapsed_wholeSeconds hstart.1 hend.2.le
      (wall_inYears hS) (wall_inYears hE) hSwhole hEwhole]
  empty start end_ S E hS hE hlast hempty := by
    cases hle : end_.le start with
    | true => exact businessSeconds_cut hle
    | false => rw [businessSeconds_eq hstart hend hS hE hle hlast, elapsed_eq_zero hempty]
  additive start mid end_ S M E hSM hME hSE hlast hS hM hE := by
    have hmid : date M < lastDate := (date_mono hME.2.2.1).trans_lt hlast
    have hwhole : ∀ {A B : Int}, InYears A → InYears B → WholeSeconds A → WholeSeconds B →
        elapsed startHour endHour A B = secondsBetween startHour endHour A B :=
      elapsed_wholeSeconds hstart.1 hend.2.le
    refine ⟨_, _, businessSeconds_inOrder hstart hend hSM hmid,
      businessSeconds_inOrder hstart hend hME hlast, ?_⟩
    rw [businessSeconds_inOrder hstart hend hSE hlast,
      hwhole (wall_inYears hSM.1) (wall_inYears hSM.2.1) hS hM,
      hwhole (wall_inYears hME.1) (wall_inYears hME.2.1) hM hE,
      hwhole (wall_inYears hSE.1) (wall_inYears hSE.2.1) hS hE, ← Nat.cast_add, secondsBetween,
      secondsBetween, secondsBetween,
      Calendar.ticks_add (Int.ediv_le_ediv (by decide) hSM.2.2.1)
        (Int.ediv_le_ediv (by decide) hME.2.2.1)]
  monotone start start' end_ end' S S' E E' h h' hS hE hlast :=
    ⟨_, _, businessSeconds_inOrder hstart hend h ((date_mono hE).trans_lt hlast),
      businessSeconds_inOrder hstart hend h' hlast, elapsed_mono hS h.2.2.1 hE⟩

inductive City where
  | greenwich
  | amman
  deriving DecidableEq

/-- Midnight UTC before a Thursday in October 2021, the last day of summer time in Amman. -/
def thursday : Int := 738090 * (24 * microsecondsPerHour)

/-- On the Friday, one o'clock in Amman becomes midnight. -/
def cityOffset : City → Int → Int
  | .greenwich, _ => 0
  | .amman, instant =>
      if instant < thursday + 22 * microsecondsPerHour then 3 * microsecondsPerHour
      else 2 * microsecondsPerHour

def utc (clock : Int) (h : InYears clock) : Zoned City := ⟨⟨clock, 0⟩, .greenwich, h⟩

theorem businessSeconds_measures_amman :
    ((0 : Int) ≤ 8 ∧ (8 : Int) < 24) ∧ ((0 : Int) ≤ 21 ∧ (21 : Int) < 24) ∧
      MeasuresBusinessTime cityOffset .amman 8 21 :=
  ⟨by decide, by decide, businessSeconds_measures cityOffset .amman (by decide) (by decide)⟩

/-- The result is the business time between the wall clocks, in seconds. -/
def Counts (tz : City) (startHour endHour : Int) (start end_ : Zoned City) : Prop :=
  ∀ S E, wall cityOffset tz start = some S → wall cityOffset tz end_ = some E →
    businessSeconds cityOffset start end_ tz startHour endHour =
      some (Calendar.ticks microsecondsPerHour startHour endHour S E / 1000000 : ℚ)

/-- The hour that Amman has twice, entered the second time and left the first time. -/
def secondTime : Zoned City := utc (thursday + 22 * microsecondsPerHour) (by decide)

def firstTime : Zoned City := utc (thursday + 21 * microsecondsPerHour + 5000000) (by decide)

def noon : Zoned City := utc (thursday + 12 * microsecondsPerHour) (by decide)

def microsecondLater : Zoned City := utc (thursday + 12 * microsecondsPerHour + 1) (by decide)

def newYearsEve (hour : Fin 24) : Zoned City :=
  utc (lastDate * (24 * microsecondsPerHour) + hour * microsecondsPerHour) (by revert hour; decide)

theorem not_counts :
    ¬ Counts .amman 0 21 secondTime firstTime ∧ ¬ Counts .greenwich 0 21 noon microsecondLater ∧
      ¬ Counts .greenwich 0 21 (newYearsEve 10) (newYearsEve 11) := by
  refine ⟨fun h => ?_, fun h => ?_, fun h => ?_⟩
  · -- the end is before the start, and later on the clock
    have hcounts := h (thursday + 24 * microsecondsPerHour)
      (thursday + 24 * microsecondsPerHour + 5000000) (by decide +kernel) (by decide +kernel)
    have hopen : 0 < Calendar.ticks microsecondsPerHour 0 21 (thursday + 24 * microsecondsPerHour)
        (thursday + 24 * microsecondsPerHour + 5000000) :=
      Finset.card_pos.mpr ⟨thursday + 24 * microsecondsPerHour,
        Finset.mem_filter.mpr ⟨Finset.mem_Ico.mpr (by decide), by decide⟩⟩
    rw [businessSeconds_cut (by decide), Option.some_inj, eq_comm, div_eq_iff (by norm_num),
      zero_mul, Nat.cast_eq_zero] at hcounts
    exact absurd hcounts hopen.ne'
  · -- the quotient is no `float`
    have hcounts := h _ _ rfl rfl
    rw [businessSeconds_eq (by decide) (by decide) rfl rfl (by decide) (by decide)] at hcounts
    exact absurd (Option.some.inj hcounts) (by decide +kernel)
  · have hcounts := h _ _ rfl rfl
    rw [businessSeconds_lastDate (by decide) (by decide) rfl rfl (by decide) (by decide)] at hcounts
    exact absurd hcounts.symm (Option.some_ne_none _)

end Outreach.Salesforce.InboundGap
