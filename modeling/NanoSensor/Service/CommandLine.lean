import NanoSensor.Foundation.Argv
import NanoSensor.Foundation.Numerals

/-!
# The command line of the service

`quote_arg` of `src/main.cpp`, the arguments that `service install` joins with it, and the command
that `service::install` of `src/service_windows.cpp` registers.

`quote_arg` puts a backslash in front of each quote of an argument, but leaves the backslashes alone
that stand there already, and those in front of the closing quote. Each of them is one of a pair
then, and is lost. `parse_commandLine_iff` says that arguments come back exactly if there are no
such backslashes in them (`Quotable`). A directory with a blank in its name and a backslash at the
end is the case that matters: the closing quote becomes part of the argument, and so does what comes
behind it.
-/

namespace NanoSensor

open Bytes

namespace Service

/-! ### Quoting -/

/-- The loop of `quote_arg`. -/
def escapeQuotes (s : Bytes) : Bytes :=
  s.flatMap fun c ↦ if c = 0x22 then [0x5C, c] else [c]

/-- The characters of `" \t\""`. -/
def isSpecial (c : UInt8) : Bool :=
  c == 0x20 || c == 0x09 || c == 0x22

/-- The argument is empty, or has one of them in it. -/
def needsQuotes (s : Bytes) : Bool :=
  s.isEmpty || s.any isSpecial

/-- `quote_arg`. -/
def quoteArg (s : Bytes) : Bytes :=
  if needsQuotes s then 0x22 :: (escapeQuotes s ++ [0x22]) else s

/-- Quoted arguments, joined with single spaces. -/
def commandLine (args : List Bytes) : Bytes :=
  (ofString " ").intercalate (args.map quoteArg)

/-- No backslash stands in front of a quote or at the end. -/
def slashSafe : Bytes → Bool
  | [] => true
  | c :: s => (c != 0x5C || s.head?.any (· != 0x22)) && slashSafe s

/-- What `quote_arg` quotes rightly. -/
def Quotable (arg : Bytes) : Prop :=
  needsQuotes arg = true → slashSafe arg = true

instance (arg : Bytes) : Decidable (Quotable arg) :=
  inferInstanceAs (Decidable (_ → _))

/-- The same with a space in front of each, which makes no difference to a parser. -/
def spaced (args : List Bytes) : Bytes :=
  args.flatMap fun arg ↦ 0x20 :: quoteArg arg

theorem spaced_cons (arg : Bytes) (args : List Bytes) :
    spaced (arg :: args) = 0x20 :: (quoteArg arg ++ spaced args) := rfl

theorem spaced_append (args args' : List Bytes) :
    spaced (args ++ args') = spaced args ++ spaced args' :=
  List.flatMap_append

theorem commandLine_cons (arg : Bytes) (args : List Bytes) :
    commandLine (arg :: args) = quoteArg arg ++ spaced args := by
  induction args generalizing arg with
  | nil => simp [commandLine, spaced]
  | cons arg' args ih =>
    have hrest := ih arg'
    rw [commandLine, List.map_cons] at hrest
    rw [commandLine, List.map_cons, List.map_cons, List.intercalate_cons_cons, hrest,
      List.append_assoc, spaced_cons]
    rfl

theorem head?_spaced (args : List Bytes) : ∀ c ∈ (spaced args).head?, c = 0x20 := by
  rcases args with - | ⟨arg, args⟩
  · exact fun c hc ↦ by cases hc
  · exact fun c hc ↦ (Option.some.inj hc).symm

theorem parse_commandLine_eq (args : List Bytes) :
    Argv.parse (commandLine args) = Argv.scan false 0 none (spaced args) := by
  rcases args with - | ⟨arg, args⟩
  · rfl
  · rw [commandLine_cons, spaced_cons, Argv.scan_blank 0 none _ rfl]
    rfl

@[simp] theorem escapeQuotes_nil : escapeQuotes [] = [] := rfl

theorem escapeQuotes_quote (s : Bytes) :
    escapeQuotes (0x22 :: s) = 0x5C :: 0x22 :: escapeQuotes s := rfl

theorem escapeQuotes_other {c : UInt8} (hc : c ≠ 0x22) (s : Bytes) :
    escapeQuotes (c :: s) = c :: escapeQuotes s := by
  rw [escapeQuotes, List.flatMap_cons, if_neg hc]
  rfl

/-! ### What is quoted rightly comes back -/

/-- An argument ends at the end of the line, or at a space. -/
theorem scan_end {slashes : ℕ} {arg : Option Bytes} {tail : Bytes}
    (hbegun : slashes ≠ 0 ∨ arg.isSome = true) (htail : ∀ c ∈ tail.head?, c = 0x20) :
    Argv.scan false slashes arg tail =
      (arg.getD [] ++ List.replicate slashes 0x5C) :: Argv.scan false 0 none tail := by
  have hflush : (Argv.flush slashes arg).toList =
      [arg.getD [] ++ List.replicate slashes 0x5C] := by
    rw [Argv.flush]
    split
    · next hzero =>
      obtain ⟨text, rfl⟩ := Option.isSome_iff_exists.1 (hbegun.resolve_left (not_not.2 hzero))
      simp [hzero]
    · rfl
  rcases tail with - | ⟨c, tail⟩
  · exact hflush
  · obtain rfl := htail c rfl
    rw [Argv.scan_blank slashes arg tail rfl, Argv.scan_blank 0 none tail rfl, hflush]
    rfl

/-- Without quotes, every character stands for itself. -/
theorem scan_bare {s : Bytes} (hs : ∀ c ∈ s, isSpecial c = false)
    {slashes : ℕ} {arg : Option Bytes} {tail : Bytes}
    (hbegun : slashes ≠ 0 ∨ arg.isSome = true ∨ s ≠ []) (htail : ∀ c ∈ tail.head?, c = 0x20) :
    Argv.scan false slashes arg (s ++ tail) =
      (arg.getD [] ++ List.replicate slashes 0x5C ++ s) :: Argv.scan false 0 none tail := by
  induction s generalizing slashes arg with
  | nil =>
    rw [List.nil_append, List.append_nil]
    refine scan_end ?_ htail
    simpa using hbegun
  | cons c s ih =>
    obtain ⟨hc, hrest⟩ := List.forall_mem_cons.1 hs
    simp only [isSpecial, Bool.or_eq_false_iff, beq_eq_false_iff_ne] at hc
    rw [List.cons_append]
    rcases eq_or_ne c 0x5C with rfl | hslash
    · rw [Argv.scan_backslash, ih hrest (Or.inl (Nat.succ_ne_zero slashes)), List.replicate_succ']
      simp
    · rw [Argv.scan_other _ _ _ _ hslash hc.2 (by simp [isSpaceOrTab, hc.1]),
        ih hrest (Or.inr (Or.inl rfl))]
      simp

/-- In quotes, what is safe comes back. -/
theorem scan_quoted {s : Bytes} (hs : slashSafe s = true) {slashes : ℕ} (text tail : Bytes)
    (hslashes : slashes ≠ 0 → s.head?.any (· != 0x22) = true) :
    Argv.scan true slashes (some text) (escapeQuotes s ++ 0x22 :: tail) =
      Argv.scan false 0 (some (text ++ List.replicate slashes 0x5C ++ s)) tail := by
  induction s generalizing slashes text with
  | nil =>
    obtain rfl : slashes = 0 := by
      by_contra hne
      cases hslashes hne
    rw [escapeQuotes_nil, List.nil_append, Argv.scan_quote]
    simp
  | cons c s ih =>
    rw [slashSafe, Bool.and_eq_true] at hs
    rcases eq_or_ne c 0x22 with rfl | hquote
    · -- the backslash in front of it is the only one
      obtain rfl : slashes = 0 := by
        by_contra hne
        cases hslashes hne
      rw [escapeQuotes_quote, List.cons_append, List.cons_append, Argv.scan_backslash,
        Argv.scan_quote, if_pos rfl, ih hs.2 _ fun hne ↦ absurd rfl hne]
      simp
    rw [escapeQuotes_other hquote, List.cons_append]
    rcases eq_or_ne c 0x5C with rfl | hslash
    · rw [Argv.scan_backslash, ih hs.2 text fun _ ↦ by simpa using hs.1, List.replicate_succ']
      simp
    · rw [Argv.scan_other _ _ _ _ hslash hquote (by simp), ih hs.2 _ fun hne ↦ absurd rfl hne]
      simp

theorem scan_quoteArg {arg tail : Bytes} (h : Quotable arg) (htail : ∀ c ∈ tail.head?, c = 0x20) :
    Argv.scan false 0 none (quoteArg arg ++ tail) = arg :: Argv.scan false 0 none tail := by
  rw [quoteArg]
  split
  · next hneeds =>
    rw [List.cons_append, List.append_assoc, List.singleton_append, Argv.scan_quote,
      if_neg (by decide)]
    rw [Bool.not_false, scan_quoted (h hneeds) _ _ fun hne ↦ absurd rfl hne,
      scan_end (Or.inr rfl) htail]
    simp
  · next hneeds =>
    simp only [needsQuotes, Bool.or_eq_true, not_or, List.isEmpty_iff, List.any_eq_true,
      not_exists, not_and, Bool.not_eq_true] at hneeds
    rw [scan_bare hneeds.2 (Or.inr (Or.inr hneeds.1)) htail]
    simp

/-- **Arguments that are quoted rightly come back.** -/
theorem parse_commandLine {args : List Bytes} (h : ∀ arg ∈ args, Quotable arg) :
    Argv.parse (commandLine args) = args := by
  rw [parse_commandLine_eq]
  induction args with
  | nil => rfl
  | cons arg args ih =>
    obtain ⟨harg, hargs⟩ := List.forall_mem_cons.1 h
    rw [spaced_cons, Argv.scan_blank 0 none _ rfl, scan_quoteArg harg (head?_spaced args), ih hargs]
    rfl

/-! ### What is lost otherwise -/

/-- The backslashes of an argument that stand in front of a quote or at the end, with so many in
front of it. -/
def exposed : (slashes : ℕ) → Bytes → ℕ
  | slashes, [] => slashes
  | slashes, c :: s =>
    if c = 0x5C then exposed (slashes + 1) s
    else if c = 0x22 then slashes + exposed 0 s
    else exposed 0 s

theorem exposed_eq_zero_iff (slashes : ℕ) (s : Bytes) :
    exposed slashes s = 0 ↔
      (slashes ≠ 0 → s.head?.any (· != 0x22) = true) ∧ slashSafe s = true := by
  induction s generalizing slashes with
  | nil => simp [exposed, slashSafe]
  | cons c s ih =>
    rw [exposed, slashSafe]
    rcases eq_or_ne c 0x5C with rfl | hslash
    · rw [if_pos rfl, ih]
      simp
    rcases eq_or_ne c 0x22 with rfl | hquote
    · rw [if_neg hslash, if_pos rfl, Nat.add_eq_zero_iff, ih]
      simp
    · rw [if_neg hslash, if_neg hquote, ih]
      simp [hslash, hquote]

/-- What an argument loses. -/
def lost (arg : Bytes) : ℕ :=
  if needsQuotes arg then exposed 0 arg else 0

theorem lost_eq_zero_iff (arg : Bytes) : lost arg = 0 ↔ Quotable arg := by
  rw [lost, Quotable]
  split
  · next h => simp [exposed_eq_zero_iff, h]
  · next h => simp [h]

theorem weighLine_bare {s tail : Bytes} (hs : 0x22 ∉ s) (htail : ∀ c ∈ tail.head?, c = 0x20)
    (slashes : ℕ) :
    Argv.weighLine slashes (s ++ tail) = 2 * slashes + Argv.weigh s + Argv.weighLine 0 tail := by
  induction s generalizing slashes with
  | nil =>
    rcases tail with - | ⟨c, tail⟩
    · rfl
    · obtain rfl := htail c rfl
      rw [List.nil_append, Argv.weighLine_other (by decide) (by decide),
        Argv.weighLine_other (by decide) (by decide), Argv.weigh_nil]
      omega
  | cons c s ih =>
    obtain ⟨hquote, hrest⟩ := not_or.1 (mt List.mem_cons.2 hs)
    rw [List.cons_append]
    rcases eq_or_ne c 0x5C with rfl | hslash
    · rw [Argv.weighLine_backslash, ih hrest, Argv.weigh_cons_backslash]
      omega
    · rw [Argv.weighLine_other hslash (Ne.symm hquote), ih hrest,
        Argv.weigh_cons_other hslash (Ne.symm hquote)]
      omega

theorem weighLine_quoted (s tail : Bytes) (slashes : ℕ) :
    Argv.weighLine slashes (escapeQuotes s ++ 0x22 :: tail) + exposed slashes s =
      2 * slashes + Argv.weigh s + Argv.weighLine 0 tail := by
  induction s generalizing slashes with
  | nil =>
    rw [escapeQuotes_nil, List.nil_append, Argv.weighLine_quote, exposed, Argv.weigh_nil]
    omega
  | cons c s ih =>
    rw [exposed]
    rcases eq_or_ne c 0x5C with rfl | hslash
    · have hrest := ih (slashes + 1)
      rw [if_pos rfl, escapeQuotes_other (by decide), List.cons_append, Argv.weighLine_backslash,
        Argv.weigh_cons_backslash]
      omega
    have hrest := ih 0
    rcases eq_or_ne c 0x22 with rfl | hquote
    · rw [if_neg hslash, if_pos rfl, escapeQuotes_quote, List.cons_append, List.cons_append,
        Argv.weighLine_backslash, Argv.weighLine_quote, Argv.weigh_cons_quote]
      omega
    · rw [if_neg hslash, if_neg hquote, escapeQuotes_other hquote, List.cons_append,
        Argv.weighLine_other hslash hquote, Argv.weigh_cons_other hslash hquote]
      omega

theorem weighLine_quoteArg (arg : Bytes) {tail : Bytes} (htail : ∀ c ∈ tail.head?, c = 0x20) :
    Argv.weighLine 0 (quoteArg arg ++ tail) + lost arg =
      Argv.weigh arg + Argv.weighLine 0 tail := by
  rw [quoteArg, lost]
  split
  · have hquoted := weighLine_quoted arg tail 0
    rw [List.cons_append, List.append_assoc, List.singleton_append, Argv.weighLine_quote]
    omega
  · next hneeds =>
    have hquote : 0x22 ∉ arg := by
      intro hmem
      refine hneeds ?_
      rw [needsQuotes, Bool.or_eq_true, List.any_eq_true]
      exact Or.inr ⟨0x22, hmem, rfl⟩
    rw [weighLine_bare hquote htail]
    omega

/-- **What the line lacks of the weight of the arguments** is what they lose. -/
theorem weighLine_spaced (args : List Bytes) :
    Argv.weighLine 0 (spaced args) + (args.map lost).sum = (args.map Argv.weigh).sum := by
  induction args with
  | nil => rfl
  | cons arg args ih =>
    have harg := weighLine_quoteArg arg (head?_spaced args)
    rw [spaced_cons, Argv.weighLine_other (by decide) (by decide), List.map_cons, List.map_cons,
      List.sum_cons, List.sum_cons]
    omega

theorem quotable_of_parse {args : List Bytes} (h : Argv.parse (commandLine args) = args) :
    ∀ arg ∈ args, Quotable arg := by
  have hweight := Argv.sum_weigh_scan false 0 none (spaced args)
  rw [← parse_commandLine_eq, h, Option.getD_none, Argv.weigh_nil] at hweight
  have hspaced := weighLine_spaced args
  have hlost : (args.map lost).sum = 0 := by omega
  intro arg harg
  rw [← lost_eq_zero_iff]
  exact List.sum_eq_zero_iff_forall_eq_nat.1 hlost _ (List.mem_map_of_mem harg)

/-- **Which arguments come back**: those in which no backslash stands in front of a quote or at the
end, and those that need no quotes. -/
theorem parse_commandLine_iff (args : List Bytes) :
    Argv.parse (commandLine args) = args ↔ ∀ arg ∈ args, Quotable arg :=
  ⟨quotable_of_parse, parse_commandLine⟩

/-- A directory that ends in a backslash swallows the argument behind it. -/
theorem parse_commandLine_directory :
    Argv.parse (commandLine [ofString "--state-dir", ofString "C:\\my dir\\", ofString "--db"]) =
      [ofString "--state-dir", ofString "C:\\my dir\" --db"] := by
  decide +kernel

/-! ### `service install` -/

/-- The parts of `Options` that `service install` writes into the command. -/
structure InstallOptions where
  indexPath : Bytes := ofString "data/cve_index.tsv"
  aliasPath : Bytes := ofString "data/cpe_aliases.tsv"
  intervalS : ℤ := 300
  stateDir : Bytes := []
  db : Bytes := []
  url : Bytes := []
  spoolDir : Bytes := ofString "spool"
  pinFile : Bytes := []
  clientCert : Bytes := []
  deriving DecidableEq, Repr

section Install

variable (abs : Bytes → Bytes) (opt : InstallOptions)

/-- `" --flag " + value`. -/
def flagged (flag : String) (value : Bytes) : Bytes :=
  ofString " " ++ ofString flag ++ ofString " " ++ value

/-- The arguments that `cmd_service` joins; `abs` is `std::filesystem::absolute`. -/
def installArgs : Bytes :=
  ofString "run" ++
    flagged "--index" (quoteArg (abs opt.indexPath)) ++
    flagged "--aliases" (quoteArg (abs opt.aliasPath)) ++
    flagged "--interval" (intText opt.intervalS) ++
    (if opt.stateDir = [] then []
      else flagged "--state-dir" (quoteArg (abs opt.stateDir)) ++
        flagged "--log-file" (quoteArg (abs (opt.stateDir ++ ofString "/agent.log")))) ++
    (if opt.db = [] then [] else flagged "--db" (quoteArg opt.db)) ++
    (if opt.url = [] then []
      else flagged "--url" (quoteArg opt.url) ++ flagged "--spool" (quoteArg (abs opt.spoolDir)) ++
        (if opt.pinFile = [] then [] else flagged "--pin-file" (quoteArg (abs opt.pinFile))) ++
        (if opt.clientCert = [] then []
          else flagged "--client-cert" (quoteArg (abs opt.clientCert))))

/-- The arguments that the service is meant to get. -/
def installWords : List Bytes :=
  ofString "run" ::
    ([ofString "--index", abs opt.indexPath] ++ [ofString "--aliases", abs opt.aliasPath] ++
    [ofString "--interval", intText opt.intervalS] ++
    (if opt.stateDir = [] then []
      else [ofString "--state-dir", abs opt.stateDir] ++
        [ofString "--log-file", abs (opt.stateDir ++ ofString "/agent.log")]) ++
    (if opt.db = [] then [] else [ofString "--db", opt.db]) ++
    (if opt.url = [] then []
      else [ofString "--url", opt.url] ++ [ofString "--spool", abs opt.spoolDir] ++
        (if opt.pinFile = [] then [] else [ofString "--pin-file", abs opt.pinFile]) ++
        (if opt.clientCert = [] then [] else [ofString "--client-cert", abs opt.clientCert])))

/-- The command that `service::install` registers. -/
def installCommand (exePath arguments : Bytes) : Bytes :=
  0x22 :: (exePath ++ [0x22]) ++ if arguments = [] then [] else 0x20 :: arguments

end Install

theorem quoteArg_intText (n : ℤ) : quoteArg (intText n) = intText n := by
  have hdecimal : ∀ m : ℕ, (decimal m).any isSpecial = false := by
    intro m
    rw [List.any_eq_false]
    intro c hc hspecial
    have hdigit := isDigit_of_mem_decimal hc
    simp only [isSpecial, Bool.or_eq_true, beq_iff_eq] at hspecial
    rcases hspecial with (rfl | rfl) | rfl <;> cases hdigit
  have hneeds : needsQuotes (intText n) = false := by
    rw [intText, needsQuotes]
    split
    · rw [List.any_cons, hdecimal]
      rfl
    · simp [hdecimal, decimal_ne_nil]
  rw [quoteArg, hneeds]
  rfl

theorem spaced_pair {flag : String} (hflag : needsQuotes (ofString flag) = false)
    (value : Bytes) : spaced [ofString flag, value] = flagged flag (quoteArg value) := by
  rw [spaced_cons, spaced_cons, quoteArg, hflag, flagged, show ofString " " = [0x20] from rfl]
  simp [spaced]

/-- What `cmd_service` joins are quoted arguments with single spaces. -/
theorem installArgs_eq (abs : Bytes → Bytes) (opt : InstallOptions) :
    installArgs abs opt = commandLine (installWords abs opt) := by
  have hnil : spaced [] = [] := rfl
  have hrun : quoteArg (ofString "run") = ofString "run" := by decide +kernel
  rw [installWords, commandLine_cons, hrun, installArgs]
  simp (disch := decide +kernel) only [spaced_append, apply_ite spaced, hnil, spaced_pair,
    quoteArg_intText, List.append_assoc]

theorem escapeQuotes_of_not_mem {s : Bytes} (hs : 0x22 ∉ s) : escapeQuotes s = s := by
  induction s with
  | nil => rfl
  | cons c s ih =>
    obtain ⟨hquote, hrest⟩ := not_or.1 (mt List.mem_cons.2 hs)
    rw [escapeQuotes_other (Ne.symm hquote), ih hrest]

theorem slashSafe_of_not_mem {s : Bytes} (hs : 0x22 ∉ s) (hlast : s.getLast? ≠ some 0x5C) :
    slashSafe s = true := by
  induction s with
  | nil => rfl
  | cons c s ih =>
    obtain ⟨-, hrest⟩ := not_or.1 (mt List.mem_cons.2 hs)
    rcases s with - | ⟨d, s⟩
    · have hc : c ≠ 0x5C := fun heq ↦ hlast (by rw [heq]; rfl)
      simp [slashSafe, hc]
    · rw [List.getLast?_cons_cons] at hlast
      have hd : d ≠ 0x22 := fun heq ↦ hrest (by rw [heq]; exact List.mem_cons_self)
      rw [slashSafe, ih hrest hlast]
      simp [hd]

/-- The path of the program is in quotes, and comes back if there is no quote in it and no backslash
at its end. -/
theorem parse_installCommand {exePath arguments : Bytes} (hquote : 0x22 ∉ exePath)
    (hslash : exePath.getLast? ≠ some 0x5C) (hne : arguments ≠ []) :
    Argv.parse (installCommand exePath arguments) = exePath :: Argv.parse arguments := by
  have hquoted : Argv.scan true 0 (some []) (escapeQuotes exePath ++ 0x22 :: 0x20 :: arguments) =
      Argv.scan false 0 (some exePath) (0x20 :: arguments) :=
    scan_quoted (slashSafe_of_not_mem hquote hslash) [] _ fun hne ↦ absurd rfl hne
  rw [escapeQuotes_of_not_mem hquote, Argv.scan_blank 0 _ arguments rfl] at hquoted
  rw [Argv.parse, installCommand, if_neg hne, List.cons_append, List.append_assoc,
    List.singleton_append, Argv.scan_quote, if_neg (by decide)]
  exact hquoted

/-- **When the service gets the arguments it was installed with.** -/
theorem parse_installCommand_iff {exePath : Bytes} (hquote : 0x22 ∉ exePath)
    (hslash : exePath.getLast? ≠ some 0x5C) (abs : Bytes → Bytes) (opt : InstallOptions) :
    Argv.parse (installCommand exePath (installArgs abs opt)) = exePath :: installWords abs opt ↔
      ∀ arg ∈ installWords abs opt, Quotable arg := by
  have hne : installArgs abs opt ≠ [] := by
    rw [installArgs_eq, installWords, commandLine_cons]
    exact List.append_ne_nil_of_left_ne_nil (by decide +kernel) _
  rw [parse_installCommand hquote hslash hne, installArgs_eq, List.cons_inj_right]
  exact ⟨quotable_of_parse, parse_commandLine⟩

end Service

end NanoSensor
