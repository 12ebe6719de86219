import NanoSensor.Foundation.Numerals
import NanoSensor.Foundation.Words
import NanoSensor.Report.Drain

/-!
# What is made of a response

`OpenSslTransport::post` reads until the peer closes and then makes a `Transport::Result` of
whatever has arrived. A response that was cut off is a response like any other to it: the status is
the number behind the first space, and without one it is zero.

A connection that is lost before the first byte is worth a retry. One that is lost within the next
eleven bytes, before the status code is complete, is not: `HTTP/1.1 20` is status 20, which is
neither a success nor worth a retry. `permanent_cut_iff` says that these eleven are the only bad
places, for every response that means success or try again, and `turn_of_cut` that the drain
then gives up at once, with all its attempts left.
-/

namespace NanoSensor

open Bytes

namespace Transport

/-! ### The result of a post -/

/-- `Transport::Result`. -/
structure Result where
  ok : Bool := false
  httpStatus : ℤ := 0
  body : Bytes := []
  error : Bytes := []
  retryable : Bool := false
  deriving DecidableEq, Repr

/-- The end of `post`, the same in both backends: what the status means. -/
def Result.judge (r : Result) : Result :=
  if 200 ≤ r.httpStatus ∧ r.httpStatus < 300 then { r with ok := true }
  else
    { r with
      ok := false
      error := ofString "cloud returned HTTP " ++ intText r.httpStatus
      retryable := 500 ≤ r.httpStatus || r.httpStatus = 429 }

/-- What `drain` looks at. -/
def Result.posted (r : Result) : PostResult :=
  ⟨r.ok, r.retryable⟩

/-- A failure that is not worth a retry. -/
def Result.Permanent (r : Result) : Prop :=
  r.ok = false ∧ r.retryable = false

instance (r : Result) : Decidable r.Permanent :=
  inferInstanceAs (Decidable (_ ∧ _))

theorem Result.permanent_judge_iff (r : Result) :
    r.judge.Permanent ↔ ¬ (200 ≤ r.httpStatus ∧ r.httpStatus < 300) ∧
      r.httpStatus < 500 ∧ r.httpStatus ≠ 429 := by
  rw [judge, Permanent]
  split
  · next h => simp [h]
  · next h => simp [h]

section Response

variable (atoi : Bytes → ℤ)

/-- The status of a response: the number behind the first space, if it begins with `HTTP/`. -/
def statusOf (response : Bytes) : ℤ :=
  if ofString "HTTP/" <+: response then
    match Delimited.splitFirst (ofString " ") response with
    | none => 0
    | some (_, rest) => atoi rest
  else 0

/-- What `OpenSslTransport::post` makes of the bytes it has read. -/
def ofResponse (response : Bytes) : Result :=
  if response = [] then
    { error := ofString "empty response from the cloud endpoint", retryable := true }
  else
    let body :=
      match Delimited.splitFirst (ofString "\r\n\r\n") response with
      | none => []
      | some (_, body) => body
    Result.judge { httpStatus := statusOf atoi response, body := body }

end Response

/-! ### Well-formed responses -/

/-- A line of a header, without its end. -/
def IsLine (line : Bytes) : Prop :=
  0x0D ∉ line ∧ 0x0A ∉ line

instance (line : Bytes) : Decidable (IsLine line) :=
  inferInstanceAs (Decidable (_ ∧ _))

/-- An HTTP/1.1 response. -/
structure HttpResponse where
  statusCode : Bytes
  reason : Bytes
  headers : List Bytes
  body : Bytes
  length_statusCode : statusCode.length = 3
  isDigit_statusCode : ∀ d ∈ statusCode, isDigit d = true
  isLine_reason : IsLine reason
  isLine_headers : ∀ line ∈ headers, line ≠ [] ∧ IsLine line

namespace HttpResponse

def status (r : HttpResponse) : ℕ :=
  natOfDigits r.statusCode

/-- The bytes of a response behind the status code. -/
def tail (r : HttpResponse) : Bytes :=
  ofString " " ++ r.reason ++ ofString "\r\n" ++
    r.headers.flatMap (fun line ↦ line ++ ofString "\r\n") ++ ofString "\r\n" ++ r.body

/-- The bytes of a response. -/
def bytes (r : HttpResponse) : Bytes :=
  ofString "HTTP/1.1 " ++ (r.statusCode ++ r.tail)

/-- The statuses that do not mean that the request is refused for good: 2xx, 429 and 5xx. -/
def Transient (status : ℕ) : Prop :=
  (200 ≤ status ∧ status < 300) ∨ status = 429 ∨ (500 ≤ status ∧ status < 600)

instance (status : ℕ) : Decidable (Transient status) :=
  inferInstanceAs (Decidable (_ ∨ _))

end HttpResponse

/-! ### A response that was cut off -/

section Cut

variable {atoi : Bytes → ℤ} (r : HttpResponse)

/-- Up to the space there is no number. -/
theorem statusOf_take_version (hatoi : LawfulAtoi atoi) {c : ℕ} (hc : c ≤ 9) :
    statusOf atoi (r.bytes.take c) = 0 := by
  have hcut : r.bytes.take c = (ofString "HTTP/1.1 ").take c :=
    List.take_append_of_le_length hc
  rw [hcut]
  rcases hc.eq_or_lt with rfl | hlt
  · exact hatoi.of_none rfl
  · interval_cases c <;> rfl

/-- Behind it the status is read from what there is. -/
theorem statusOf_take_add (k : ℕ) :
    statusOf atoi (r.bytes.take (9 + k)) = atoi ((r.statusCode ++ r.tail).take k) := by
  have hcut : r.bytes.take ((ofString "HTTP/1.1 ").length + k) =
      ofString "HTTP/1.1 " ++ (r.statusCode ++ r.tail).take k := List.take_length_add_append k
  rw [show 9 = (ofString "HTTP/1.1 ").length from rfl, hcut]
  rfl

/-- With the whole code it is the status that was sent. -/
theorem statusOf_take_of_le (hatoi : LawfulAtoi atoi) {c : ℕ} (hc : 12 ≤ c) :
    statusOf atoi (r.bytes.take c) = r.status := by
  obtain ⟨k, rfl⟩ := Nat.exists_eq_add_of_le hc
  have hcut : (r.statusCode ++ r.tail).take (3 + k) = r.statusCode ++ r.tail.take k := by
    rw [← r.length_statusCode, List.take_length_add_append]
  have hne : r.statusCode ≠ [] := by
    rw [← List.length_pos_iff, r.length_statusCode]
    decide
  have hspace : ∀ b ∈ (r.tail.take k).head?, isDigit b = false := by
    intro b hb
    rcases k with - | k
    · cases hb
    · obtain rfl : (0x20 : UInt8) = b := Option.some.inj hb
      rfl
  have hlt := natOfDigits_lt r.isDigit_statusCode
  rw [r.length_statusCode] at hlt
  rw [show 12 + k = 9 + (3 + k) by omega, statusOf_take_add, hcut,
    hatoi.of_digits hne r.isDigit_statusCode hspace (by omega), HttpResponse.status]

/-- With part of it, it is a number below one hundred. -/
theorem statusOf_take_lt (hatoi : LawfulAtoi atoi) {c : ℕ} (hc : c < 12) :
    statusOf atoi (r.bytes.take c) < 100 := by
  rcases Nat.lt_or_ge 9 c with h9 | h9
  · obtain ⟨k, rfl⟩ := Nat.exists_eq_add_of_le h9.le
    have hcut : (r.statusCode ++ r.tail).take k = r.statusCode.take k ++ [] := by
      rw [List.append_nil, List.take_append_of_le_length (by rw [r.length_statusCode]; omega)]
    have hdigits : ∀ d ∈ r.statusCode.take k, isDigit d = true := fun d hd ↦
      r.isDigit_statusCode d (List.mem_of_mem_take hd)
    have hlen : (r.statusCode.take k).length = k := by
      rw [List.length_take, r.length_statusCode]
      omega
    have hne : r.statusCode.take k ≠ [] := by
      rw [← List.length_pos_iff, hlen]
      omega
    have hlt : natOfDigits (r.statusCode.take k) < 10 ^ 2 := by
      refine (natOfDigits_lt hdigits).trans_le (Nat.pow_le_pow_right (by decide) ?_)
      rw [hlen]
      omega
    rw [statusOf_take_add, hcut, hatoi.of_digits hne hdigits (by simp) (by omega)]
    exact_mod_cast hlt
  · rw [statusOf_take_version r hatoi h9]
    decide

theorem permanent_cut_iff (hatoi : LawfulAtoi atoi) (hstatus : HttpResponse.Transient r.status)
    (c : ℕ) : (ofResponse atoi (r.bytes.take c)).Permanent ↔ 0 < c ∧ c < 12 := by
  rcases Nat.eq_zero_or_pos c with rfl | hpos
  · refine iff_of_false ?_ (by omega)
    rintro ⟨-, hretry⟩
    cases hretry
  · have hne : r.bytes.take c ≠ [] := by
      intro hnil
      rcases List.take_eq_nil_iff.1 hnil with rfl | hnil
      · exact Nat.lt_irrefl 0 hpos
      · cases hnil
    rw [ofResponse, if_neg hne, Result.permanent_judge_iff]
    dsimp only
    rcases Nat.lt_or_ge c 12 with hlt | hge
    · have hsmall := statusOf_take_lt r hatoi hlt
      omega
    · rw [statusOf_take_of_le r hatoi hge]
      rcases hstatus with h | h | h <;> omega

/-- **When a cut connection is not a permanent failure**: when it is cut before the first byte, or
behind the status code. -/
theorem cut_not_permanent_iff (hatoi : LawfulAtoi atoi) (hstatus : HttpResponse.Transient r.status)
    (c : ℕ) : ¬ (ofResponse atoi (r.bytes.take c)).Permanent ↔ c = 0 ∨ 12 ≤ c := by
  rw [permanent_cut_iff r hatoi hstatus]
  omega

/-- The drain gives up over a response that is cut off in its status code. -/
theorem turn_of_cut {o : DrainOptions} {w : World} {d : Drain} (hatoi : LawfulAtoi atoi)
    (hstatus : HttpResponse.Transient r.status) {c : ℕ} (hpos : 0 < c) (hc : c < 12)
    (h : Reporter.Posts o w d (ofResponse atoi (r.bytes.take c)).posted) :
    (Reporter.turn o w d).gaveUp = true ∧ (Reporter.turn o w d).attempt = d.attempt := by
  obtain ⟨hok, hretry⟩ := (permanent_cut_iff r hatoi hstatus c).2 ⟨hpos, hc⟩
  rw [Reporter.turn_of_permanent h hok hretry]
  exact ⟨rfl, rfl⟩

end Cut

/-- `HTTP/1.1 200 OK` with one header line and a body. -/
def okResponse : HttpResponse where
  statusCode := ofString "200"
  reason := ofString "OK"
  headers := [ofString "Content-Length: 2"]
  body := ofString "hi"
  length_statusCode := by decide +kernel
  isDigit_statusCode := by decide +kernel
  isLine_reason := by decide +kernel
  isLine_headers := by decide +kernel

/-- Cut off behind the status line, a success is still a success. -/
theorem cut_not_permanent_status_line :
    ¬ (ofResponse (strtol 31 10) (okResponse.bytes.take 15)).Permanent :=
  (cut_not_permanent_iff okResponse lawfulAtoi_strtol (by decide +kernel) 15).2 (by decide)

/-- Cut off behind `HTTP/1.1 20`, it is a permanent failure. -/
theorem cut_permanent_in_status_code :
    okResponse.bytes.take 11 = ofString "HTTP/1.1 20" ∧
      ofResponse (strtol 31 10) (okResponse.bytes.take 11) =
        { httpStatus := 20, error := ofString "cloud returned HTTP 20" } ∧
      (ofResponse (strtol 31 10) (okResponse.bytes.take 11)).Permanent := by
  decide +kernel

end Transport

end NanoSensor
