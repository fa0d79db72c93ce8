import RiskOps.Lib.PyJson

/-!
# RiskOps.Lib.IsoTime — timestamps and their ISO 8601 texts

**What `datetime.fromisoformat` reads, and what `isoformat` prints.** A moment is the fields of a
`datetime`, checked. Dates are read as `YYYY-MM-DD`, `YYYYMMDD` or by ISO week, clocks with or
without colons, with a fraction cut to microseconds, zones as offsets. A moment in UTC is read back
from its text (`fromisoformat_isoformat`).
-/

namespace RiskOps.Lib.IsoTime

open RiskOps.Lib.PyJson (isDigit digitsValue)

/-! ### Moments -/

/-- `_is_leap`. -/
def isLeap (year : Nat) : Bool := year % 4 = 0 && (year % 100 ≠ 0 || year % 400 = 0)

/-- `_days_in_month`. -/
def daysInMonth (year month : Nat) : Nat :=
  if month = 2 then if isLeap year then 29 else 28
  else if month = 4 ∨ month = 6 ∨ month = 9 ∨ month = 11 then 30
  else 31

/-- `_days_before_month`. -/
def daysBeforeMonth (year month : Nat) : Nat :=
  ((List.range (month - 1)).map fun m => daysInMonth year (m + 1)).sum

/-- `_days_before_year`. -/
def daysBeforeYear (year : Nat) : Nat :=
  let y := year - 1
  y * 365 + y / 4 - y / 100 + y / 400

/-- `_ymd2ord`. -/
def ymd2ord (year month day : Nat) : Nat :=
  daysBeforeYear year + daysBeforeMonth year month + day

/-- `_ord2ymd`. -/
def ord2ymd (ordinal : Nat) : Nat × Nat × Nat :=
  let n := ordinal - 1
  let n400 := n / 146097
  let n := n % 146097
  let n100 := n / 36524
  let n := n % 36524
  let n4 := n / 1461
  let n := n % 1461
  let n1 := n / 365
  let n := n % 365
  let year := n400 * 400 + 1 + n100 * 100 + n4 * 4 + n1
  if n1 = 4 ∨ n100 = 4 then (year - 1, 12, 31)
  else
    let month := (n + 50) / 32
    let month := if n < daysBeforeMonth year month then month - 1 else month
    (year, month, n - daysBeforeMonth year month + 1)

/-- The time of a day. -/
structure Clock where
  hour : Nat
  minute : Nat
  second : Nat
  microsecond : Nat
  deriving DecidableEq

/-- The microseconds of a time. -/
def Clock.micros (c : Clock) : Nat :=
  ((c.hour * 60 + c.minute) * 60 + c.second) * 1000000 + c.microsecond

/-- The checks of `datetime`. -/
def inRange (year month day : Nat) (clock : Clock) : Bool :=
  1 ≤ year && year ≤ 9999 && 1 ≤ month && month ≤ 12 && 1 ≤ day && day ≤ daysInMonth year month &&
    clock.hour ≤ 23 && clock.minute ≤ 59 && clock.second ≤ 59 && clock.microsecond ≤ 999999

/-- A `datetime` without its zone. -/
structure Moment where
  year : Nat
  month : Nat
  day : Nat
  clock : Clock
  valid : inRange year month day clock = true
  deriving DecidableEq

/-- `datetime(year, month, day, …)`. -/
def moment (date : Nat × Nat × Nat) (clock : Clock) : Option Moment :=
  if h : inRange date.1 date.2.1 date.2.2 clock = true then
    some ⟨date.1, date.2.1, date.2.2, clock, h⟩
  else none

/-- The microseconds of a day. -/
def dayMicros : Nat := 86400000000

namespace Moment

/-- Microseconds since the start of year 1. -/
def micros (t : Moment) : Nat :=
  (ymd2ord t.year t.month t.day - 1) * dayMicros + t.clock.micros

/-- The moment so many microseconds after the start of year 1, when there is one. -/
def ofMicros (n : Int) : Option Moment :=
  if n < 0 then none
  else
    let n := n.toNat
    let seconds := n % dayMicros / 1000000
    moment (ord2ymd (n / dayMicros + 1))
      { hour := seconds / 3600
        minute := seconds / 60 % 60
        second := seconds % 60
        microsecond := n % 1000000 }

/-- `t.astimezone(timezone.utc)` of a moment in the zone of an offset. -/
def astimezone (t : Moment) (offset : Int) : Option Moment :=
  if offset = 0 then some t else ofMicros (t.micros - offset)

/-- Microseconds since 1970 of a moment in UTC. -/
def sinceEpoch (t : Moment) : Int := (t.micros : Int) - (ymd2ord 1970 1 1 - 1 : Nat) * dayMicros

end Moment

/-! ### Printing -/

/-- The last `width` decimal digits. -/
def pad : Nat → Nat → Str
  | 0, _ => []
  | width + 1, n => pad width (n / 10) ++ [48 + n % 10]

/-- `%Y-%m-%d`. -/
def dateText (t : Moment) : Str := pad 4 t.year ++ 45 :: pad 2 t.month ++ 45 :: pad 2 t.day

/-- `%H:%M:%S.%f`. -/
def clockText (c : Clock) : Str :=
  pad 2 c.hour ++ 58 :: pad 2 c.minute ++ 58 :: pad 2 c.second ++ 46 :: pad 6 c.microsecond

/-- `+00:00`. -/
def utcText : Str := Str.ofString "+00:00"

/-- The text of a moment without its zone. -/
def stamp (t : Moment) : Str := dateText t ++ 84 :: clockText t.clock

/-- `t.isoformat(timespec="microseconds")` of a moment in UTC. -/
def isoformat (t : Moment) : Str := stamp t ++ utcText

/-! ### Reading -/

/-- The number of exactly `width` digits at the start. -/
def number (width : Nat) (s : Str) : Option Nat :=
  if (s.take width).length = width && (s.take width).all isDigit then
    some (digitsValue (s.take width))
  else none

/-- `iso_to_ymd`. -/
def isoWeek (year week day : Nat) : Option (Nat × Nat × Nat) :=
  let first := ymd2ord year 1 1
  let long := first % 7 = 4 || (first % 7 = 3 && isLeap year)
  if year < 1 || week = 0 || 53 < week || (week = 53 && !long) || day = 0 || 7 < day then none
  else
    let weekday := (first + 6) % 7
    let monday := if 3 < weekday then first + 7 - weekday else first - weekday
    some (ord2ymd (monday + (week - 1) * 7 + (day - 1)))

/-- `_find_isoformat_datetime_separator`. -/
def separator (s : Str) : Option Nat :=
  if s.length = 7 then some 7
  else if s[4]? = some 45 then
    if s[5]? = some 87 then
      if s[8]? = some 45 then
        if s.length = 9 then none
        else if (s[10]?).any isDigit then some 8
        else some 10
      else some 8
    else some 10
  else if s[4]? = some 87 then
    let stop := 7 + ((s.drop 7).takeWhile isDigit).length
    if stop < 9 then some stop
    else if stop % 2 = 0 then some 7
    else some 8
  else some 8

/-- `parse_isoformat_date`. -/
def parseDate (s : Str) : Option (Nat × Nat × Nat) := do
  let year ← number 4 s
  let dashed := decide (s[4]? = some 45)
  let dash := if dashed then 1 else 0
  let s := s.drop (4 + dash)
  if s.head? = some 87 then
    let week ← number 2 (s.drop 1)
    let s := s.drop 3
    if s = [] then isoWeek year week 1
    else if decide (s.head? = some 45) ≠ dashed then none
    else
      let day ← number 1 (s.drop dash)
      isoWeek year week day
  else
    let month ← number 2 s
    let s := s.drop 2
    if decide (s.head? = some 45) ≠ dashed then none
    else
      let day ← number 2 (s.drop dash)
      return (year, month, day)

/-- Nothing follows, or a zone does, before which the rest is passed over. -/
def stops (zoned : Bool) (s : Str) : Bool := zoned || s.head?.all (· = 0)

/-- The fraction of a second, cut to microseconds. -/
def parseFraction (zoned : Bool) (s : Str) : Option Nat := do
  let width := min 6 s.length
  let n ← number width s
  if stops zoned ((s.drop width).dropWhile isDigit) && s.encodable then
    return n * 10 ^ (6 - width)
  else none

/-- `parse_hh_mm_ss_ff`: so many more of the hour, minute and second, and the fraction. -/
def parseParts (zoned : Bool) : Nat → Option Bool → Str → Option (List Nat)
  | 0, _, s => (parseFraction zoned s).map ([·])
  | more + 1, colons, s => do
      let n ← number 2 s
      match s.drop 2 with
      | [] => return [n]
      | [c] => if stops zoned [c] && c < 128 then return [n] else none
      | c :: rest =>
        let colons := colons.getD (c = 58)
        let parts ←
          if colons && c = 58 then parseParts zoned more (some colons) rest
          else if c = 46 || c = 44 then
            (parseFraction zoned rest).map (List.replicate more 0 ++ [·])
          else if colons then none
          else parseParts zoned more (some colons) (c :: rest)
        return n :: parts

/-- `HH[:?MM[:?SS]][{.,}fff[fff]]`. -/
def parseClock (zoned : Bool) (s : Str) : Option Clock :=
  (parseParts zoned 3 none s).map fun parts =>
    ⟨parts.getD 0 0, parts.getD 1 0, parts.getD 2 0, parts.getD 3 0⟩

/-- `+`, `-` or `Z`: a zone starts. -/
def startsZone (c : Nat) : Bool := c = 43 || c = 45 || c = 90

/-- The offset of a zone in microseconds, less than a day, as it is documented: an offset below a
second is kept, where CPython reads it as UTC. -/
def parseZone (sign : Nat) (s : Str) : Option Int := do
  if sign = 90 then
    if stops false s then return 0 else none
  else
    let clock ← parseClock false s
    if dayMicros ≤ clock.micros then none
    else return if sign = 45 then -(clock.micros : Int) else clock.micros

/-- `parse_isoformat_time`: the time, and the offset of its zone. -/
def parseTime (s : Str) : Option (Clock × Option Int) :=
  match s.dropWhile (!startsZone ·) with
  | [] => (parseClock false s).map (·, none)
  | sign :: zone => do
      let clock ← parseClock true (s.takeWhile (!startsZone ·))
      let offset ← parseZone sign zone
      return (clock, some offset)

/-- `datetime.fromisoformat`: the moment, and the offset of its zone. A date with a separator and
nothing after it is no documented form; CPython reads it as midnight, and here it is refused. -/
def fromisoformat (s : Str) : Option (Moment × Option Int) := do
  if s.length < 7 then none
  else
    let at_ ← separator s
    let date ← parseDate (s.take at_)
    let (clock, offset) ← match s.drop at_ with
      | [] => some (⟨0, 0, 0, 0⟩, none)
      | _ :: time => parseTime time
    return (← moment date clock, offset)

/-! ### What is printed is read -/

section RoundTrip

variable {width n : Nat} {s : Str}

@[simp] theorem length_pad : (pad width n).length = width := by
  induction width generalizing n with
  | zero => rfl
  | succ width ih => rw [pad, List.length_append, ih, List.length_singleton]

theorem isDigit_pad : (pad width n).all isDigit = true := by
  induction width generalizing n with
  | zero => rfl
  | succ width ih =>
    rw [pad, List.all_append, ih, Bool.true_and]
    have hlt : n % 10 < 10 := Nat.mod_lt _ (by decide)
    simp [isDigit]
    omega

theorem digitsValue_pad (h : n < 10 ^ width) : digitsValue (pad width n) = n := by
  induction width generalizing n with
  | zero =>
    have hzero : n = 0 := by simpa using h
    rw [hzero]
    rfl
  | succ width ih =>
    have hdiv : n / 10 < 10 ^ width := by
      rw [Nat.div_lt_iff_lt_mul (by decide), ← Nat.pow_succ]
      exact h
    have hih := ih hdiv
    rw [digitsValue] at hih
    rw [pad, digitsValue, List.foldl_append, hih, List.foldl_cons, List.foldl_nil]
    omega

/-- A padded number is read. -/
theorem number_pad (h : n < 10 ^ width) : number width (pad width n ++ s) = some n := by
  have htake : (pad width n ++ s).take width = pad width n := List.take_left' length_pad
  rw [number, htake, length_pad, isDigit_pad, digitsValue_pad h]
  simp

theorem drop_pad : (pad width n ++ s).drop width = s := List.drop_left' length_pad

/-- The fields of a moment. -/
theorem Moment.bounds (t : Moment) : 1 ≤ t.year ∧ t.year ≤ 9999 ∧ 1 ≤ t.month ∧ t.month ≤ 12 ∧
    1 ≤ t.day ∧ t.day ≤ daysInMonth t.year t.month ∧ t.clock.hour ≤ 23 ∧ t.clock.minute ≤ 59 ∧
    t.clock.second ≤ 59 ∧ t.clock.microsecond ≤ 999999 := by
  have h := t.valid
  simp only [inRange, Bool.and_eq_true, decide_eq_true_eq] at h
  tauto

theorem daysInMonth_le (year month : Nat) : daysInMonth year month ≤ 31 := by
  unfold daysInMonth
  split_ifs <;> omega

theorem length_dateText (t : Moment) : (dateText t).length = 10 := by
  simp [dateText]

theorem head_pad_two (n : Nat) (s : Str) : (pad 2 n ++ s).head? = some (48 + n / 10 % 10) := rfl

theorem parseDate_dateText (t : Moment) :
    parseDate (dateText t) = some (t.year, t.month, t.day) := by
  obtain ⟨-, hyear, -, hmonth, -, hday, -⟩ := t.bounds
  have hday := hday.trans (daysInMonth_le _ _)
  have hdash : (dateText t)[4]? = some 45 := by
    simp [dateText]
  have htext : dateText t
      = pad 4 t.year ++ (45 :: (pad 2 t.month ++ (45 :: (pad 2 t.day ++ [])))) := by
    simp [dateText]
  have hdrop : (dateText t).drop (4 + 1) = pad 2 t.month ++ (45 :: (pad 2 t.day ++ [])) := by
    rw [htext, ← List.drop_drop, drop_pad]
    rfl
  have hweek : ¬ some (48 + t.month / 10 % 10) = some 87 := by
    rw [Option.some.injEq]
    omega
  have hnumber : number 4 (dateText t) = some t.year := by
    rw [htext, number_pad (show t.year < 10 ^ 4 by omega)]
  simp only [parseDate, hdash, hnumber, hdrop, head_pad_two, hweek, drop_pad, decide_true, if_true,
    if_false, List.head?_cons, ne_eq, not_true_eq_false, List.drop_succ_cons, List.drop_zero,
    number_pad (show t.month < 10 ^ 2 by omega), number_pad (show t.day < 10 ^ 2 by omega),
    Option.bind_eq_bind, Option.bind_some]
  rfl

theorem clockText_eq (c : Clock) : clockText c = pad 2 c.hour ++ (58 :: (pad 2 c.minute ++
    (58 :: (pad 2 c.second ++ (46 :: (pad 6 c.microsecond ++ [])))))) := by
  simp [clockText]

theorem encodable_pad : (pad width n).encodable = true := by
  refine Str.encodable_of_lt fun c hc => ?_
  have hdigit := List.all_eq_true.mp isDigit_pad c hc
  simp only [isDigit, Bool.and_eq_true, decide_eq_true_eq] at hdigit
  omega

theorem parseFraction_pad (zoned : Bool) (h : n < 10 ^ 6) :
    parseFraction zoned (pad 6 n) = some n := by
  have hnumber : number 6 (pad 6 n) = some n := by
    rw [← List.append_nil (pad 6 n), number_pad h]
  have hdrop : (pad 6 n).drop 6 = [] := List.drop_of_length_le (le_of_eq length_pad)
  simp [parseFraction, length_pad, hnumber, hdrop, encodable_pad, stops]

/-- A part, and the colon after it. -/
theorem parseParts_colon {zoned : Bool} {more : Nat} {colons : Option Bool} (h : n < 10 ^ 2)
    (hcolons : colons.getD true = true) (hs : s ≠ []) :
    parseParts zoned (more + 1) colons (pad 2 n ++ 58 :: s)
      = (parseParts zoned more (some true) s).map (n :: ·) := by
  obtain ⟨d, s, rfl⟩ := List.exists_cons_of_ne_nil hs
  rw [parseParts, number_pad h, drop_pad]
  simp only [decide_true, hcolons, Option.bind_eq_bind, Option.bind_some, Bool.and_self, if_true]
  cases parseParts zoned more (some true) (d :: s) with
  | none => rfl
  | some parts => rfl

/-- A part, and the fraction after it. -/
theorem parseParts_dot {zoned : Bool} {more : Nat} (h : n < 10 ^ 2) (hs : s ≠ []) :
    parseParts zoned (more + 1) (some true) (pad 2 n ++ 46 :: s)
      = (parseFraction zoned s).map fun f => n :: (List.replicate more 0 ++ [f]) := by
  obtain ⟨d, s, rfl⟩ := List.exists_cons_of_ne_nil hs
  rw [parseParts, number_pad h, drop_pad]
  simp only [Option.getD_some, Option.bind_eq_bind, Option.bind_some, Bool.true_and,
    decide_true, Bool.true_or, if_true]
  cases parseFraction zoned (d :: s) with
  | none => rfl
  | some f => rfl

/-- The clock of a moment, whatever zone follows. -/
theorem parseClock_clockText (t : Moment) (zoned : Bool) :
    parseClock zoned (clockText t.clock) = some t.clock := by
  obtain ⟨-, -, -, -, -, -, hhour, hminute, hsecond, hmicro⟩ := t.bounds
  have hne : ∀ (m : Nat) (s : Str), pad 2 m ++ s ≠ [] := fun _ _ => List.cons_ne_nil _ _
  have hfraction : pad 6 t.clock.microsecond ≠ [] := List.cons_ne_nil _ _
  rw [parseClock, clockText_eq, List.append_nil,
    parseParts_colon (by omega) rfl (hne _ _), parseParts_colon (by omega) rfl (hne _ _),
    parseParts_dot (by omega) hfraction, parseFraction_pad zoned (by omega)]
  rfl

theorem mem_pad {c : Nat} (h : c ∈ pad width n) : 48 ≤ c ∧ c ≤ 57 := by
  simpa [isDigit] using List.all_eq_true.mp isDigit_pad c h

theorem mem_clockText {c : Clock} {d : Nat} (h : d ∈ clockText c) : 46 ≤ d ∧ d ≤ 58 := by
  simp only [clockText, List.mem_append, List.mem_cons] at h
  rcases h with (((h | rfl | h) | rfl | h) | rfl | h)
  · have := mem_pad h
    omega
  · decide
  · have := mem_pad h
    omega
  · decide
  · have := mem_pad h
    omega
  · decide
  · have := mem_pad h
    omega

/-- No `+` and no `Z` before the zone. -/
theorem mem_stamp {t : Moment} {d : Nat} (h : d ∈ stamp t) : 45 ≤ d ∧ d ≤ 84 := by
  simp only [stamp, dateText, List.mem_append, List.mem_cons] at h
  rcases h with ((h | rfl | h) | rfl | h) | rfl | h
  · have := mem_pad h
    omega
  · decide
  · have := mem_pad h
    omega
  · decide
  · have := mem_pad h
    omega
  · decide
  · have := mem_clockText h
    omega

@[simp] theorem length_stamp (t : Moment) : (stamp t).length = 26 := by
  simp [stamp, dateText, clockText]

theorem parseTime_clockText (t : Moment) :
    parseTime (clockText t.clock ++ utcText) = some (t.clock, some 0) := by
  have hclock : ∀ d ∈ clockText t.clock, (!startsZone d) = true := fun d hd => by
    have hrange := mem_clockText hd
    simp only [startsZone, Bool.not_eq_true', Bool.or_eq_false_iff, decide_eq_false_iff_not]
    omega
  have hdrop : (clockText t.clock ++ utcText).dropWhile (!startsZone ·) = utcText := by
    rw [List.dropWhile_append_of_pos hclock]
    rfl
  have htake : (clockText t.clock ++ utcText).takeWhile (!startsZone ·) = clockText t.clock := by
    rw [List.takeWhile_append_of_pos hclock]
    exact List.append_nil _
  have hzone : parseZone 43 (Str.ofString "00:00") = some 0 := by decide +kernel
  have hutc : utcText = 43 :: Str.ofString "00:00" := by decide
  rw [parseTime, hdrop, htake, hutc]
  dsimp only
  rw [parseClock_clockText, hzone]
  rfl

theorem moment_self (t : Moment) : moment (t.year, t.month, t.day) t.clock = some t :=
  dif_pos t.valid

/-- A moment in UTC is read back from its text. -/
theorem fromisoformat_isoformat (t : Moment) : fromisoformat (isoformat t) = some (t, some 0) := by
  have htext := length_dateText t
  have hiso : isoformat t = dateText t ++ 84 :: (clockText t.clock ++ utcText) := by
    simp [isoformat, stamp]
  have hlen : (isoformat t).length = 32 := by
    simp [isoformat, utcText, Str.ofString]
  have hdash : (isoformat t)[4]? = some 45 := by simp [hiso, dateText, pad]
  have hmonth : (isoformat t)[5]? = some (48 + t.month / 10 % 10) := by
    simp [hiso, dateText, pad]
  have hweek : ¬ some (48 + t.month / 10 % 10) = some 87 := by
    rw [Option.some.injEq]
    omega
  have hseparator : separator (isoformat t) = some 10 := by
    rw [separator, hlen, hdash, hmonth, if_neg (by decide), if_pos rfl, if_neg hweek]
  have htake : (isoformat t).take 10 = dateText t := by
    rw [hiso, List.take_left' htext]
  have hdrop : (isoformat t).drop 10 = 84 :: (clockText t.clock ++ utcText) := by
    rw [hiso, List.drop_left' htext]
  rw [fromisoformat, hlen, hseparator]
  simp only [Option.bind_eq_bind, Option.bind_some, htake, hdrop, parseDate_dateText,
    parseTime_clockText, moment_self]
  rfl

end RoundTrip

end RiskOps.Lib.IsoTime
