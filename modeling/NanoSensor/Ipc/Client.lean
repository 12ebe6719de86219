import NanoSensor.Foundation.Numerals

/-!
# How long a scan may take, for the client and for the service

`nsctl` puts its arguments into one line of text and calls the service with a timeout. For a scan it
reads the wait off that line, to be 5 seconds more patient than the service. The service reads the
wait off the same line in its own way. The client takes what `strtoul` makes of the text behind the
first space; the service extracts an `int` behind the first word, has a default for what is not one,
and clamps the rest.

`scan_timeout_iff` says exactly for which requests the client is patient enough, by the text behind
the command (`Patient`). It is not where there is no number, since `strtoul` has no default
(`nsctl_scan_abc`), and not where 5 seconds more do not fit into an `unsigned long`.

`long` has the 32 bits it has on Windows.
-/

namespace NanoSensor.Ipc

open Bytes

/-! ### The client -/

/-- `kDefaultPipe`. -/
def kDefaultPipe : Bytes :=
  ofString "\\\\.\\pipe\\nano-sensor"

/-- The locals of the client's `main`, which it passes to `ipc::call`. -/
structure Call where
  pipe : Bytes := kDefaultPipe
  timeoutMs : ℕ := 10000
  request : Bytes := []
  deriving DecidableEq

/-- An argument that is part of the request. -/
def Call.addArg (c : Call) (a : Bytes) : Call :=
  { c with request := if c.request ≠ [] then c.request ++ ofString " " ++ a else a }

/-- The loop over the arguments. There is no call where the client only prints its usage. -/
def parseArgs (c : Call) : List Bytes → Option Call
  | [] => some c
  -- an option that lacks its value is part of the request
  | [a] => if a = ofString "-h" ∨ a = ofString "--help" then none else some (c.addArg a)
  | a :: v :: rest =>
    if a = ofString "--pipe" then parseArgs { c with pipe := v } rest
    else if a = ofString "--timeout" then parseArgs { c with timeoutMs := strtoul 32 10 v } rest
    else if a = ofString "-h" ∨ a = ofString "--help" then none
    else parseArgs (c.addArg a) (v :: rest)

/-- What stands behind the first space: `request.find(' ')`. -/
def afterSpace (request : Bytes) : Option Bytes :=
  match request.dropWhile (· ≠ 0x20) with
  | [] => none
  | _ :: rest => some rest

/-- The wait the client reads. -/
def clientWait (request : Bytes) : ℕ :=
  match afterSpace request with
  | none => 30000
  | some rest => strtoul 32 10 rest

/-- "A scan can legitimately take as long as the caller asked to wait." -/
def Call.forScan (c : Call) : Call :=
  if ofString "scan" <+: c.request then
    -- `unsigned long` has 32 bits, and the sum wraps
    let patience := (clientWait c.request + 5000) % 2 ^ 32
    if patience > c.timeoutMs then { c with timeoutMs := patience } else c
  else c

/-- `main` of the client, up to the call. -/
def nsctl (args : List Bytes) : Option Call :=
  if args = [] then none else (parseArgs {} args).map Call.forScan

/-! ### The service -/

/-- `in >> cmd`: the command, and what is left in the stream. -/
def command (request : Bytes) : Bytes × Bytes :=
  let s := request.dropWhile isSpace
  (s.takeWhile fun b ↦ !isSpace b, s.dropWhile fun b ↦ !isSpace b)

/-- The clamp at the beginning of `handle_scan`. -/
def clampWait (hangTimeoutS waitMs : ℤ) : ℤ :=
  let cap := if hangTimeoutS > 0 then hangTimeoutS * 500 else 60000
  max 0 (min waitMs cap)

/-- The wait of the service for a scan, if `Agent::handle` takes the request for one. -/
def serviceWait (hangTimeoutS : ℤ) (request : Bytes) : Option ℤ :=
  if (command request).1 = ofString "scan" then
    -- "A failed extraction writes 0, so the default has to be restored rather than pre-set."
    some (clampWait hangTimeoutS ((extractInt 31 (command request).2).getD 30000))
  else none

/-- The default of `hang_timeout_s`. -/
def kHangTimeoutS : ℤ := 120

/-! ### The two waits -/

/-- A request that begins with the command `scan`. -/
structure IsScan (request : Bytes) : Prop where
  begins : ofString "scan" <+: request
  command : (command request).1 = ofString "scan"

/-- The number the client reads, if it reads one. -/
def clientNumber (request : Bytes) : Option ℤ :=
  match afterSpace request with
  | none => some 30000
  | some rest => readNumber 10 rest

/-- The client is patient enough for a wait of `s` milliseconds: its usual 10 seconds are enough, or
it has read a number that is, and that leaves room for 5 seconds more. A negative number counts from
the end of the range. -/
def Suffices (s : ℤ) (number : Option ℤ) : Prop :=
  s ≤ 5000 ∨ ∃ m, number = some m ∧
    (s ≤ m ∧ m < 2 ^ 32 - 5000 ∨ s - 2 ^ 32 ≤ m ∧ m < -5000)

/-- The number the service reads in the text behind the command. -/
def serviceNumber (text : Bytes) : ℤ :=
  (extractInt 31 text).getD 30000

/-- The client is patient enough for `scan` and the text behind it. -/
def Patient : Bytes → Prop
  | [] => True
  | c :: t =>
    -- both read the same number
    if c = 0x20 then ∃ n, readNumber 10 t = some n ∧ 30000 - 2 ^ 32 ≤ n ∧ n < 2 ^ 32 - 5000
    -- behind another blank the client does not see the number of the service
    else
      match afterSpace t with
      | none => serviceNumber t ≤ 30000
      | some u => Suffices (max 0 (min (serviceNumber t) 60000)) (readNumber 10 u)

section Waits

variable {request : Bytes}

/-- Without `--timeout` the timeout is the default. -/
theorem timeoutMs_parseArgs (c : Call) (args : List Bytes) :
    ∀ {c' : Call}, ofString "--timeout" ∉ args → parseArgs c args = some c' →
      c'.timeoutMs = c.timeoutMs := by
  induction c, args using parseArgs.induct with
  | case1 c =>
    intro c' _ h
    rw [← Option.some_inj.1 h]
  | case2 c a hhelp =>
    intro c' _ h
    rw [parseArgs, if_pos hhelp] at h
    cases h
  | case3 c a hhelp =>
    intro c' _ h
    rw [parseArgs, if_neg hhelp] at h
    rw [← Option.some_inj.1 h]
    rfl
  | case4 c v rest ih =>
    intro c' hno h
    rw [parseArgs, if_pos rfl] at h
    exact ih (fun hmem ↦ hno (by simp [hmem])) h
  | case5 c v rest _ ih => exact fun hno _ ↦ absurd List.mem_cons_self hno
  | case6 c a v rest hpipe htimeout hhelp =>
    intro c' _ h
    rw [parseArgs, if_neg hpipe, if_neg htimeout, if_pos hhelp] at h
    cases h
  | case7 c a v rest hpipe htimeout hhelp ih =>
    intro c' hno h
    rw [parseArgs, if_neg hpipe, if_neg htimeout, if_neg hhelp] at h
    exact ih (fun hmem ↦ hno (List.mem_cons_of_mem a hmem)) h

/-- The wait is within the clamp. -/
theorem serviceWait_bounds {wait : ℤ} (h : serviceWait kHangTimeoutS request = some wait) :
    0 ≤ wait ∧ wait ≤ 60000 := by
  rw [serviceWait] at h
  split at h
  · rw [← Option.some_inj.1 h, clampWait, kHangTimeoutS]
    norm_num
  · cases h

/-- What the client waits for the service, by the number it reads. -/
theorem le_patience_iff (request : Bytes) {s : ℤ} (hs : 0 ≤ s) (hs' : s ≤ 60000) :
    s + 5000 ≤ max 10000 (((clientWait request + 5000) % 2 ^ 32 : ℕ) : ℤ) ↔
      Suffices s (clientNumber request) := by
  rw [clientWait, clientNumber, Suffices]
  rcases afterSpace request with - | rest
  · simp only [Option.some_inj, exists_eq_left']
    omega
  · dsimp only
    rw [strtoul]
    rcases readNumber 10 rest with - | m
    · -- `strtoul` returns `0`, and the client keeps its 10 seconds
      simp only [reduceCtorEq, false_and, exists_false, or_false]
      omega
    · simp only [Option.some_inj, exists_eq_left']
      split
      · omega
      · omega

/-- The timeout of the call for a scan. -/
theorem timeoutMs_nsctl {args : List Bytes} {c : Call} (hno : ofString "--timeout" ∉ args)
    (hcall : nsctl args = some c) (hscan : IsScan c.request) :
    (c.timeoutMs : ℤ) = max 10000 (((clientWait c.request + 5000) % 2 ^ 32 : ℕ) : ℤ) := by
  rw [nsctl] at hcall
  split at hcall
  · cases hcall
  · obtain ⟨c₀, hparse, hfor⟩ := Option.map_eq_some_iff.1 hcall
    have htimeout : c₀.timeoutMs = 10000 := timeoutMs_parseArgs _ _ hno hparse
    have hrequest : c.request = c₀.request := by
      rw [← hfor, Call.forScan]
      split
      · dsimp only
        split <;> rfl
      · rfl
    rw [hrequest] at hscan ⊢
    rw [← hfor, Call.forScan, if_pos hscan.begins, htimeout]
    dsimp only
    split
    · show (((clientWait c₀.request + 5000) % 2 ^ 32 : ℕ) : ℤ) = _
      omega
    · omega

/-! ### The text behind the command -/

theorem afterSpace_scan (t : Bytes) : afterSpace (ofString "scan" ++ t) = afterSpace t := rfl

theorem IsScan.eq_append (h : IsScan request) : ∃ text, request = ofString "scan" ++ text ∧
    (text = [] ∨ ∃ c t, text = c :: t ∧ isSpace c = true) := by
  obtain ⟨text, rfl⟩ := h.begins
  refine ⟨text, rfl, ?_⟩
  rcases text with - | ⟨c, t⟩
  · exact Or.inl rfl
  · refine Or.inr ⟨c, t, rfl, ?_⟩
    by_contra hc
    have hlong : (Ipc.command (ofString "scan" ++ c :: t)).1 =
        ofString "scan" ++ c :: t.takeWhile fun b ↦ !isSpace b := by
      show [0x73, 0x63, 0x61, 0x6E] ++ (c :: t).takeWhile (fun b ↦ !isSpace b) = _
      rw [List.takeWhile_cons_of_pos (by simpa using hc)]
      rfl
    have hlen := congrArg List.length (hlong.symm.trans h.command)
    simp [ofString] at hlen

theorem serviceWait_scan_cons {c : UInt8} (hc : isSpace c = true) (t : Bytes) :
    serviceWait kHangTimeoutS (ofString "scan" ++ c :: t) =
      some (max 0 (min (serviceNumber t) 60000)) := by
  have hcommand : command (ofString "scan" ++ c :: t) = (ofString "scan", c :: t) := by
    show ([0x73, 0x63, 0x61, 0x6E] ++ (c :: t).takeWhile (fun b ↦ !isSpace b),
      (c :: t).dropWhile fun b ↦ !isSpace b) = _
    rw [List.takeWhile_cons_of_neg (by simpa using hc),
      List.dropWhile_cons_of_neg (by simpa using hc)]
    rfl
  rw [serviceWait, hcommand, if_pos rfl, serviceNumber, extractInt, readNumber_cons_space 10 hc]
  rfl

/-- A number that both read. -/
theorem suffices_readNumber_iff (t : Bytes) :
    Suffices (max 0 (min (serviceNumber t) 60000)) (readNumber 10 t) ↔
      ∃ n, readNumber 10 t = some n ∧ 30000 - 2 ^ 32 ≤ n ∧ n < 2 ^ 32 - 5000 := by
  rw [Suffices, serviceNumber, extractInt]
  rcases readNumber 10 t with - | n
  · simp
  · simp only [Option.some_inj, exists_eq_left']
    by_cases hint : -2 ^ 31 ≤ n ∧ n < 2 ^ 31
    · rw [Option.filter_some, if_pos (by simpa using hint), Option.getD_some]
      omega
    · -- the extraction fails, and the default is more than the usual patience of the client
      rw [Option.filter_some, if_neg (by simpa using hint), Option.getD_none]
      omega

/-- What the client reads suffices for the wait of the service. -/
theorem suffices_iff_patient (hscan : IsScan request) {wait : ℤ}
    (hwait : serviceWait kHangTimeoutS request = some wait) :
    Suffices wait (clientNumber request) ↔ Patient (request.drop 4) := by
  obtain ⟨text, rfl, rfl | ⟨c, t, rfl, hc⟩⟩ := hscan.eq_append
  · obtain rfl : (30000 : ℤ) = wait := Option.some.inj hwait
    exact iff_of_true (Or.inr ⟨30000, rfl, by decide⟩) trivial
  · obtain rfl := Option.some.inj ((serviceWait_scan_cons hc t).symm.trans hwait)
    show Suffices _ (clientNumber _) ↔ Patient (c :: t)
    rw [clientNumber, afterSpace_scan, Patient]
    by_cases hspace : c = 0x20
    · subst hspace
      rw [if_pos rfl]
      exact suffices_readNumber_iff t
    · have hlater : afterSpace (c :: t) = afterSpace t := by
        rw [afterSpace, afterSpace, List.dropWhile_cons_of_pos (by simpa using hspace)]
      rw [if_neg hspace, hlater]
      rcases afterSpace t with - | u
      · simp only [Suffices, Option.some_inj, exists_eq_left']
        omega
      · rfl

end Waits

/-- **When the client is patient enough.** For a call without `--timeout` whose request begins with
the command `scan`, the timeout is 5 seconds more than the wait of the service exactly if the text
behind the command is one the client is patient enough for: nothing, a space and an integer that is
not out of range, or another blank and numbers that happen to fit. -/
theorem scan_timeout_iff (args : List Bytes) {c : Call} {wait : ℤ}
    (hno : ofString "--timeout" ∉ args) (hcall : nsctl args = some c) (hscan : IsScan c.request)
    (hwait : serviceWait kHangTimeoutS c.request = some wait) :
    wait + 5000 ≤ c.timeoutMs ↔ Patient (c.request.drop 4) := by
  obtain ⟨hpos, hcap⟩ := serviceWait_bounds hwait
  rw [timeoutMs_nsctl hno hcall hscan, le_patience_iff c.request hpos hcap]
  exact suffices_iff_patient hscan hwait

/-- The usual wait of half a minute, given as an argument. -/
theorem scan_timeout_half_a_minute :
    ∃ c, nsctl [ofString "scan", ofString "30000"] = some c ∧ (30000 : ℤ) + 5000 ≤ c.timeoutMs := by
  refine ⟨⟨kDefaultPipe, 35000, ofString "scan 30000"⟩, by decide +kernel, ?_⟩
  exact (scan_timeout_iff [ofString "scan", ofString "30000"] (by decide +kernel)
    (by decide +kernel) ⟨by decide +kernel, by decide +kernel⟩ (by decide +kernel)).2
    ⟨30000, by decide +kernel, by decide⟩

/-- Where there is no number the service waits its 30 seconds, and the client 10. -/
theorem nsctl_scan_abc : ∃ c wait, nsctl [ofString "scan", ofString "abc"] = some c ∧
    IsScan c.request ∧ serviceWait kHangTimeoutS c.request = some wait ∧
    ¬ wait + 5000 ≤ (c.timeoutMs : ℤ) :=
  ⟨⟨kDefaultPipe, 10000, ofString "scan abc"⟩, 30000, by decide +kernel,
    ⟨by decide +kernel, by decide +kernel⟩, by decide +kernel, by decide⟩

end NanoSensor.Ipc
