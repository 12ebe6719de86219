import NanoSensor.Cve.Names
import NanoSensor.Foundation.Keyed
import NanoSensor.Platform.ProcNet

/-!
# The processes of the kernel

`collect_processes` of `src/platform/platform_linux.cpp` reads `/proc/<pid>/{comm,stat,status,exe}`
of every process, and `build_inode_to_pid` what its file descriptors point to.

A process chooses its own name, and the kernel prints that name into three of these files: as it is
in `comm`, with newlines and backslashes escaped in `status`, and in parentheses in `stat`, as it is
or escaped, which depends on the kernel. `Fs.Shows` is the layout of the files; what stands between
the parentheses is any text. `collectProcesses_eq` is what the collector makes of them. No name
changes what is reported as the parent or the user of its process. But a name of blanks keeps the
process out of the inventory: `comm` is trimmed, and a process without a name is left out.
-/

namespace NanoSensor.Platform

open Bytes Delimited

/-! ### The collector -/

/-- Why a directory cannot be opened: whether `errno` is `EACCES`, and what `strerror` says. -/
structure OpenError where
  denied : Bool
  text : Bytes

/-- What the collectors see of the file system: the text of a file that can be opened, the target of
a link that can be read, and the names in a directory. -/
structure Fs where
  file : Bytes → Option Bytes
  link : Bytes → Option Bytes
  dir : Bytes → Except OpenError (List Bytes)

/-- `read_file`. -/
def Fs.readFile (fs : Fs) (path : Bytes) : Bytes :=
  (fs.file path).getD []

/-- `readlink` into a buffer for so many bytes; nothing if it fails. -/
def Fs.readlink (fs : Fs) (path : Bytes) (size : ℕ) : Bytes :=
  ((fs.link path).getD []).take size

/-- `is_number`. -/
def isNumber (s : Bytes) : Bool :=
  s ≠ [] && s.all isDigit

/-- `"/proc/" + pid + "/" + file`. -/
def procPath (pid file : Bytes) : Bytes :=
  ofString "/proc/" ++ pid ++ ofString "/" ++ file

/-- `std::strtoll(s.c_str(), nullptr, 10)`. -/
def strtoll (s : Bytes) : Int64 :=
  Int64.ofInt (strtol 63 10 s)

/-- `process_comm`. -/
def processComm (fs : Fs) (pid : Int64) : Bytes :=
  trim (fs.readFile (procPath (i64Text pid) (ofString "comm")))

/-- The parent, from the text of `stat`: behind the last parenthesis come the state and then the
parent. -/
def ppidOf (stat : Bytes) : Option Int64 :=
  match splitLast 0x29 stat with
  | none => none
  | some (_, back) =>
    -- `close_paren + 2 < stat.size()`
    if back.length ≤ 1 then none
    else
      match words isSpace (back.drop 1) with
      | _state :: ppid :: _ => some (strtoll ppid)
      | _ => none

/-- `ls >> uid`, for a `uid_t` of 32 bits: a negative number that fits is negated in the type. -/
def extractUid (s : Bytes) : Option ℕ :=
  match readNumber 10 s with
  | none => none
  | some n => if n.natAbs < 2 ^ 32 then some (n % 2 ^ 32).toNat else none

/-- The user, from the text of `status`: the name that `getpwuid` knows, or the number. -/
def userOf (getpwuid : ℕ → Option Bytes) (status : Bytes) : Bytes :=
  match (getlines 0x0A status).find? fun line ↦ (ofString "Uid:").isPrefixOf line with
  | none => []
  | some line =>
    match extractUid (line.drop 4) with
    | none => []
    | some uid => (getpwuid uid).getD (decimal uid)

/-- The body of the loop of `collect_processes`. -/
def processOf (fs : Fs) (getpwuid : ℕ → Option Bytes) (pid : Bytes) : Process where
  pid := strtoll pid
  ppid := (ppidOf (fs.readFile (procPath pid (ofString "stat")))).getD (-1)
  name := processComm fs (strtoll pid)
  exePath := (fs.readlink (procPath pid (ofString "exe")) 4095).takeWhile (· ≠ 0)
  user := userOf getpwuid (fs.readFile (procPath pid (ofString "status")))

/-- `collect_processes`: the processes and the warnings. -/
def collectProcesses (fs : Fs) (getpwuid : ℕ → Option Bytes) : List Process × List Bytes :=
  match fs.dir (ofString "/proc") with
  | .error e => ([], [ofString "opendir(/proc) failed: " ++ e.text])
  | .ok names =>
    let pids := names.filter isNumber
    let out := (pids.map (processOf fs getpwuid)).filter fun p ↦ p.name ≠ []
    let noExe := pids.countP fun pid ↦ fs.readlink (procPath pid (ofString "exe")) 4095 = []
    (out,
      if noExe > 0 then
        [decimal noExe ++ ofString " of " ++ decimal (out.length + noExe) ++
          ofString (" processes had no readable exe link (kernel threads, or run as " ++
            "root for full coverage)")]
      else [])

/-- `map.emplace(inode, pid)`: the first one stays. -/
def emplace (map : ℕ → Option Int64) (inode : ℕ) (pid : Int64) : ℕ → Option Int64 :=
  if (map inode).isSome then map else Function.update map inode (some pid)

/-- The body of the loop over the descriptors. -/
def walkFd (fs : Fs) (fdDir : Bytes) (pid : Int64) (map : ℕ → Option Int64) (name : Bytes) :
    ℕ → Option Int64 :=
  if name.head? = some 0x2E then map
  else
    let target := fs.readlink (fdDir ++ ofString "/" ++ name) 127
    if (ofString "socket:[").isPrefixOf target then
      let inode := strtoul 64 10 (target.drop 8)
      if inode ≠ 0 then emplace map inode pid else map
    else map

/-- The body of the loop over `/proc`, with the number of processes that could not be looked at. -/
def walkPid (fs : Fs) (acc : (ℕ → Option Int64) × ℕ) (pid : Bytes) : (ℕ → Option Int64) × ℕ :=
  let fdDir := procPath pid (ofString "fd")
  match fs.dir fdDir with
  | .error e => if e.denied then (acc.1, acc.2 + 1) else acc
  | .ok names => (names.foldl (walkFd fs fdDir (strtoll pid)) acc.1, acc.2)

/-- `build_inode_to_pid`. -/
def buildInodeToPid (fs : Fs) : (ℕ → Option Int64) × ℕ :=
  match fs.dir (ofString "/proc") with
  | .error _ => (fun _ ↦ none, 0)
  | .ok names => (names.filter isNumber).foldl (walkPid fs) (fun _ ↦ none, 0)

/-- What `collect_listening_sockets` knows of the processes. -/
def Fs.owners (fs : Fs) : Owners where
  inodeToPid := (buildInodeToPid fs).1
  denied := (buildInodeToPid fs).2
  comm := processComm fs

/-! ### The layout -/

/-- What a file descriptor points to. -/
inductive Fd
  | socket (inode : UInt64)
  | other (target : Bytes)

/-- The target of its link. -/
def Fd.target : Fd → Bytes
  | .socket inode => ofString "socket:[" ++ (decimal inode.toNat ++ [0x5D])
  | .other target => target

/-- It is the socket with this inode. -/
def Fd.isSocket (inode : ℕ) : Fd → Bool
  | .socket i => i.toNat = inode
  | .other _ => false

/-- Nothing but a socket is called like one. -/
def Fd.WellNamed : Fd → Prop
  | .socket _ => True
  | .other target => ¬ ofString "socket:[" <+: target

/-- A process as the kernel has it. -/
structure Task where
  pid : ℕ
  pid_lt : pid < 2 ^ 63
  /-- Any bytes. -/
  comm : Bytes
  state : UInt8
  isAlpha_state : isAlpha state = true
  ppid : ℕ
  ppid_lt : ppid < 2 ^ 63
  uid : UInt32
  exe : Option Bytes
  exe_short : ∀ e ∈ exe, e.length ≤ 4095 ∧ 0 ∉ e
  /-- Its descriptors, by their numbers. -/
  fds : Except OpenError (List (ℕ × Fd))
  fds_wellNamed : ∀ l, fds = .ok l → ∀ x ∈ l, x.2.WellNamed

/-- How the kernel prints a name into `status`. -/
def escapeName (comm : Bytes) : Bytes :=
  comm.flatMap fun b ↦
    if b = 0x0A then ofString "\\n" else if b = 0x5C then ofString "\\\\" else [b]

namespace Task

/-- The text of `stat`, up to the parent and behind it, with this for the name. -/
def stat (t : Task) (name rest : Bytes) : Bytes :=
  decimal t.pid ++ ofString " (" ++ name ++ 0x29 :: 0x20 :: t.state :: 0x20 ::
    (decimal t.ppid ++ 0x20 :: rest)

/-- The text of `status`, with the lines between the name and the user, and what comes behind. -/
def status (t : Task) (between : List Bytes) (uids rest : Bytes) : Bytes :=
  terminate 0x0A ((ofString "Name:\t" ++ escapeName t.comm) :: between ++
    [ofString "Uid:\t" ++ (decimal t.uid.toNat ++ 0x09 :: uids)]) ++ rest

/-- The entry of the inventory that should come of it. -/
def process (getpwuid : ℕ → Option Bytes) (t : Task) : Process where
  pid := Int64.ofNat t.pid
  ppid := Int64.ofNat t.ppid
  name := trim t.comm
  exePath := t.exe.getD []
  user := (getpwuid t.uid.toNat).getD (decimal t.uid.toNat)

end Task

/-- The files of a process. -/
structure Fs.Shows (fs : Fs) (t : Task) : Prop where
  comm : fs.file (procPath (decimal t.pid) (ofString "comm")) = some (t.comm ++ [0x0A])
  stat : ∃ name rest, 0x29 ∉ rest ∧
    fs.file (procPath (decimal t.pid) (ofString "stat")) = some (t.stat name rest)
  status : ∃ between uids rest,
    (∀ line ∈ between, 0x0A ∉ line ∧ ¬ ofString "Uid:" <+: line) ∧ 0x0A ∉ uids ∧
    fs.file (procPath (decimal t.pid) (ofString "status")) = some (t.status between uids rest)
  exe : fs.link (procPath (decimal t.pid) (ofString "exe")) = t.exe
  fdDir : fs.dir (procPath (decimal t.pid) (ofString "fd")) =
    t.fds.map fun fds ↦ [ofString ".", ofString ".."] ++ fds.map fun x ↦ decimal x.1
  fd : ∀ fds, t.fds = .ok fds → ∀ x ∈ fds,
    fs.link (procPath (decimal t.pid) (ofString "fd") ++ ofString "/" ++ decimal x.1) =
      some x.2.target

/-- The processes of `/proc`, in the order of the directory; there are other things in it. -/
structure Fs.Lists (fs : Fs) (tasks : List Task) : Prop where
  dir : ∃ names, fs.dir (ofString "/proc") = .ok names ∧
    names.filter isNumber = tasks.map fun t ↦ decimal t.pid
  shows : ∀ t ∈ tasks, fs.Shows t

/-! ### Reading the files -/

theorem strtoll_decimal {n : ℕ} (hn : n < 2 ^ 63) : strtoll (decimal n) = Int64.ofNat n := by
  rw [strtoll, strtol_of_readNumber (readNumber_decimal n) hn]
  simp only [Int64.ofInt, BitVec.ofInt_natCast]
  rfl

theorem i64Text_ofNat {n : ℕ} (hn : n < 2 ^ 63) : i64Text (Int64.ofNat n) = decimal n := by
  rw [i64Text, Int64.toInt_ofNat_of_lt hn, if_neg (Int.natCast_nonneg n).not_gt, Int.natAbs_natCast]

/-- A blank at the end is trimmed. -/
theorem trim_concat {b : UInt8} (hb : isBlank b = true) (s : Bytes) : trim (s ++ [b]) = trim s := by
  rw [trim, trim]
  by_cases hs : ∀ c ∈ s, isBlank c = true
  · rw [List.dropWhile_eq_nil_iff.2 hs, List.dropWhile_eq_nil_iff.2 fun c hc ↦ ?_]
    rcases List.mem_append.1 hc with hc | hc
    · exact hs c hc
    · rw [List.mem_singleton.1 hc]
      exact hb
  · have hne : s.dropWhile isBlank ≠ [] := fun h ↦ hs (List.dropWhile_eq_nil_iff.1 h)
    rw [List.dropWhile_append, if_neg (by simpa using hne), List.rdropWhile_concat_pos _ _ _ hb]

theorem Fs.Shows.processComm {fs : Fs} {t : Task} (h : fs.Shows t) :
    processComm fs (Int64.ofNat t.pid) = trim t.comm := by
  rw [Platform.processComm, i64Text_ofNat t.pid_lt, Fs.readFile, h.comm, Option.getD_some,
    trim_concat (by decide)]

theorem of_isAlpha {b : UInt8} (h : isAlpha b = true) : isSpace b = false ∧ b ≠ 0x29 :=
  forall_byte (motive := fun b ↦ isAlpha b = true → isSpace b = false ∧ b ≠ 0x29)
    (by decide +kernel) b h

/-- **The parent does not depend on the name.** -/
theorem ppidOf_stat (t : Task) (name : Bytes) {rest : Bytes} (hrest : 0x29 ∉ rest) :
    ppidOf (t.stat name rest) = some (Int64.ofNat t.ppid) := by
  obtain ⟨hspace, hstate⟩ := of_isAlpha t.isAlpha_state
  have hdigits : ∀ b ∈ decimal t.ppid, isSpace b = false := fun b hb ↦
    not_isSpace_of_isDigit (isDigit_of_mem_decimal hb)
  have hppid : 0x29 ∉ decimal t.ppid := fun hmem ↦
    absurd (isDigit_of_mem_decimal hmem) (by decide)
  -- the last parenthesis is the one behind the name
  have hparen : 0x29 ∉ 0x20 :: t.state :: 0x20 :: (decimal t.ppid ++ 0x20 :: rest) := by
    simp only [List.mem_cons, List.mem_append, not_or]
    exact ⟨by decide, hstate.symm, by decide, hppid, by decide, hrest⟩
  have hwords : words isSpace (t.state :: 0x20 :: (decimal t.ppid ++ 0x20 :: rest)) =
      [t.state] :: decimal t.ppid :: words isSpace rest := by
    have hone : words isSpace [t.state] = [[t.state]] :=
      words_of_forall (List.cons_ne_nil _ _) (by simpa using hspace)
    have htwo : words isSpace (decimal t.ppid ++ 0x20 :: rest) =
        decimal t.ppid :: words isSpace rest := by
      rw [words_append_cons rfl, words_of_forall (decimal_ne_nil _) hdigits]
      rfl
    rw [← List.singleton_append, words_append_cons rfl, hone, htwo]
    rfl
  rw [ppidOf, Task.stat, splitLast_append hparen]
  simp only [List.length_cons, List.drop_succ_cons, List.drop_zero, hwords,
    strtoll_decimal t.ppid_lt]
  rw [if_neg (by omega)]

theorem newline_notMem_escapeName (comm : Bytes) : 0x0A ∉ escapeName comm := by
  intro hmem
  obtain ⟨b, -, hb⟩ := List.mem_flatMap.1 hmem
  split at hb
  · exact absurd hb (by decide)
  · split at hb
    · exact absurd hb (by decide)
    · next hne _ => exact hne (List.mem_singleton.1 hb).symm

theorem extractUid_decimal (uid : UInt32) (uids : Bytes) :
    extractUid (0x09 :: (decimal uid.toNat ++ 0x09 :: uids)) = some uid.toNat := by
  have hlt : uid.toNat < 2 ^ 32 := uid.toNat_lt
  have hread : readNumber 10 (0x09 :: (decimal uid.toNat ++ 0x09 :: uids)) =
      some (uid.toNat : ℤ) := by
    rw [readNumber_cons_space 10 rfl, readNumber_digits_append (decimal_ne_nil _)
      (fun _ ↦ isDigit_of_mem_decimal) (by simp; decide), natOfDigits_decimal]
  simp only [extractUid, hread, Int.natAbs_natCast, if_pos hlt, Option.some.injEq]
  omega

/-- **Neither does the user.** -/
theorem userOf_status (getpwuid : ℕ → Option Bytes) (t : Task) {between : List Bytes}
    {uids : Bytes} (rest : Bytes)
    (hbetween : ∀ line ∈ between, 0x0A ∉ line ∧ ¬ ofString "Uid:" <+: line) (huids : 0x0A ∉ uids) :
    userOf getpwuid (t.status between uids rest) =
      (getpwuid t.uid.toNat).getD (decimal t.uid.toNat) := by
  have hname : 0x0A ∉ ofString "Name:\t" ++ escapeName t.comm := by
    rw [List.mem_append, not_or]
    exact ⟨by decide, newline_notMem_escapeName t.comm⟩
  have huid : 0x0A ∉ ofString "Uid:\t" ++ (decimal t.uid.toNat ++ 0x09 :: uids) := by
    simp only [List.mem_append, List.mem_cons, not_or]
    exact ⟨by decide, fun h ↦ absurd (isDigit_of_mem_decimal h) (by decide), by decide, huids⟩
  have hlines : ∀ line ∈ (ofString "Name:\t" ++ escapeName t.comm) :: between ++
      [ofString "Uid:\t" ++ (decimal t.uid.toNat ++ 0x09 :: uids)], 0x0A ∉ line := by
    rw [List.cons_append, List.forall_mem_cons, List.forall_mem_append]
    exact ⟨hname, fun line hline ↦ (hbetween line hline).1, by simpa using huid⟩
  -- the line of the name begins with `Name:` whatever the name is
  have hbefore : ((ofString "Name:\t" ++ escapeName t.comm) :: between).find?
      (fun line ↦ (ofString "Uid:").isPrefixOf line) = none := by
    rw [List.find?_eq_none, List.forall_mem_cons]
    refine ⟨Bool.eq_false_iff.1 rfl, fun line hline ↦ ?_⟩
    rw [List.isPrefixOf_iff_prefix]
    exact (hbetween line hline).2
  have hfind : (getlines 0x0A (t.status between uids rest)).find?
      (fun line ↦ (ofString "Uid:").isPrefixOf line) =
        some (ofString "Uid:\t" ++ (decimal t.uid.toNat ++ 0x09 :: uids)) := by
    rw [Task.status, getlines_terminate_append hlines, List.append_assoc, List.find?_append,
      hbefore, Option.none_or, List.singleton_append, List.find?_cons_of_pos]
    rfl
  have hdrop : (ofString "Uid:\t" ++ (decimal t.uid.toNat ++ 0x09 :: uids)).drop 4 =
      0x09 :: (decimal t.uid.toNat ++ 0x09 :: uids) := rfl
  simp only [userOf, hfind, hdrop, extractUid_decimal]

theorem exePath_of_shows {fs : Fs} {t : Task} (h : fs.Shows t) :
    (fs.readlink (procPath (decimal t.pid) (ofString "exe")) 4095).takeWhile (· ≠ 0) =
      t.exe.getD [] := by
  rw [Fs.readlink, h.exe]
  cases hexe : t.exe with
  | none => rfl
  | some e =>
    obtain ⟨hlen, hnul⟩ := t.exe_short e hexe
    rw [Option.getD_some, List.take_of_length_le hlen, List.takeWhile_eq_self_iff]
    exact fun b hb ↦ decide_eq_true fun heq ↦ hnul (heq ▸ hb)

/-- What one process comes to. -/
theorem Fs.Shows.processOf {fs : Fs} {t : Task} (h : fs.Shows t) (getpwuid : ℕ → Option Bytes) :
    processOf fs getpwuid (decimal t.pid) = t.process getpwuid := by
  obtain ⟨name, rest, hrest, hstat⟩ := h.stat
  obtain ⟨between, uids, after, hbetween, huids, hstatus⟩ := h.status
  have hppid : ppidOf (fs.readFile (procPath (decimal t.pid) (ofString "stat"))) =
      some (Int64.ofNat t.ppid) := by
    rw [Fs.readFile, hstat, Option.getD_some, ppidOf_stat t name hrest]
  have huser : userOf getpwuid (fs.readFile (procPath (decimal t.pid) (ofString "status"))) =
      (getpwuid t.uid.toNat).getD (decimal t.uid.toNat) := by
    rw [Fs.readFile, hstatus, Option.getD_some, userOf_status getpwuid t after hbetween huids]
  rw [Platform.processOf, exePath_of_shows h, strtoll_decimal t.pid_lt, h.processComm, hppid, huser]
  rfl

/-- **What `collect_processes` reports.** On the files of any processes, whatever names they have
given themselves: every process with its number, its parent, its user, its executable and its name,
except those with a name of blanks, which are not reported. -/
theorem collectProcesses_eq {fs : Fs} {tasks : List Task} (h : fs.Lists tasks)
    (getpwuid : ℕ → Option Bytes) :
    (collectProcesses fs getpwuid).1 =
      (tasks.filter fun t ↦ trim t.comm ≠ []).map (Task.process getpwuid) := by
  obtain ⟨names, hdir, hnames⟩ := h.dir
  have hread : (names.filter isNumber).map (processOf fs getpwuid) =
      tasks.map (Task.process getpwuid) := by
    rw [hnames, List.map_map]
    exact List.map_congr_left fun t ht ↦ (h.shows t ht).processOf getpwuid
  simp only [collectProcesses, hdir, hread, List.filter_map]
  rfl

/-- A process that calls itself like this, and has a socket open whose inode is 1000. -/
def worker (comm : Bytes) : Task where
  pid := 7
  pid_lt := by decide
  comm := comm
  state := 0x53
  isAlpha_state := by decide
  ppid := 1
  ppid_lt := by decide
  uid := 33
  exe := none
  exe_short := nofun
  fds := .ok [(3, .socket 1000)]
  fds_wellNamed := by
    rintro l hl x hx
    cases hl
    rw [List.mem_singleton.1 hx]
    trivial

/-- Its host, on which user 1000 listens to the world with another socket. -/
def workerHost (comm : Bytes) : Fs where
  file path :=
    if path = ofString "/proc/net/tcp" then some (listenerTable 0 12345)
    else if path ∈ tables.map Prod.fst then some (terminate 0x0A [[]])
    else if path = procPath (decimal 7) (ofString "comm") then some (comm ++ [0x0A])
    else if path = procPath (decimal 7) (ofString "stat") then some ((worker comm).stat comm [])
    else if path = procPath (decimal 7) (ofString "status") then
      some ((worker comm).status [] [] [])
    else none
  link path :=
    if path = procPath (decimal 7) (ofString "fd") ++ ofString "/" ++ decimal 3 then
      some (Fd.socket 1000).target
    else none
  dir path :=
    if path = ofString "/proc" then .ok ([".", "..", "7", "net"].map ofString)
    else if path = procPath (decimal 7) (ofString "fd") then
      .ok ([ofString ".", ofString ".."] ++ [decimal 3])
    else .error ⟨false, []⟩

theorem workerHost_shows (comm : Bytes) : (workerHost comm).Shows (worker comm) where
  comm := by simp +decide [workerHost, worker]
  stat := ⟨comm, [], List.not_mem_nil, by simp +decide [workerHost, worker]⟩
  status := ⟨[], [], [], nofun, List.not_mem_nil, by simp +decide [workerHost, worker]⟩
  exe := by simp +decide [workerHost, worker]
  fdDir := by
    simp +decide [workerHost, worker]
    rfl
  fd := by
    rintro fds hfds x hx
    cases hfds
    rw [List.mem_singleton.1 hx]
    simp +decide [workerHost, worker]

theorem workerHost_lists (comm : Bytes) : (workerHost comm).Lists [worker comm] where
  dir := by
    refine ⟨[".", "..", "7", "net"].map ofString, ?_, ?_⟩
    · simp only [workerHost, ↓reduceIte]
    · show _ = [decimal 7]
      decide +kernel
  shows := by
    intro t ht
    rw [List.mem_singleton.1 ht]
    exact workerHost_shows comm

/-- The name would have process 99 for a parent. -/
theorem collectProcesses_eq_forged :
    (collectProcesses (workerHost (ofString "x) S 99 (")) fun _ ↦ none).1 =
      [⟨7, 1, ofString "x) S 99 (", [], ofString "33"⟩] := by
  rw [collectProcesses_eq (workerHost_lists _),
    List.filter_cons_of_pos (by decide +kernel), List.filter_nil, List.map_singleton, Task.process]
  have hname : trim (worker (ofString "x) S 99 (")).comm = ofString "x) S 99 (" := by
    decide +kernel
  rw [hname]
  rfl

/-! ### The owners of the sockets -/

/-- The process has a socket with this inode open, and its descriptors can be read. -/
def Task.holds (inode : ℕ) (t : Task) : Bool :=
  match t.fds with
  | .error _ => false
  | .ok fds => fds.any fun x ↦ x.2.isSocket inode

theorem emplace_apply (map : ℕ → Option Int64) (inode : ℕ) (pid : Int64) (k : ℕ) :
    emplace map inode pid k = (map k).or (if inode = k then some pid else none) := by
  rw [emplace]
  by_cases hk : inode = k
  · subst hk
    rw [if_pos rfl]
    rcases hmap : map inode with - | old
    · simp
    · simp [hmap]
  · rw [if_neg hk, Option.or_none]
    split
    · rfl
    · exact Function.update_of_ne (Ne.symm hk) _ _

/-- A link is read far enough to tell. -/
theorem isPrefixOf_readlink_iff {fs : Fs} {path target : Bytes}
    (hlink : fs.link path = some target) :
    (ofString "socket:[").isPrefixOf (fs.readlink path 127) = true ↔
      ofString "socket:[" <+: target := by
  rw [List.isPrefixOf_iff_prefix, Fs.readlink, hlink, Option.getD_some, List.prefix_take_iff]
  exact and_iff_left (by decide)

theorem length_decimal_le {n k : ℕ} (hk : k ≠ 0) (hn : n < 10 ^ k) : (decimal n).length ≤ k := by
  rw [decimal]
  split
  · exact Nat.one_le_iff_ne_zero.2 hk
  · rw [List.length_map, List.length_reverse]
    exact (Nat.digits_length_le_iff (by decide) n).2 hn

/-- The number of a socket is read back from its link. -/
theorem strtoul_socket {fs : Fs} {path : Bytes} {i : UInt64}
    (hlink : fs.link path = some (Fd.socket i).target) :
    strtoul 64 10 ((fs.readlink path 127).drop 8) = i.toNat := by
  have hlt : i.toNat < 2 ^ 64 := i.toNat_lt
  have hlen : (Fd.socket i).target.length ≤ 127 := by
    have hdigits := length_decimal_le (n := i.toNat) (k := 20) (by decide) (by omega)
    have hbegins : (ofString "socket:[").length = 8 := by decide
    rw [Fd.target, List.length_append, List.length_append, hbegins, List.length_singleton]
    omega
  have hread : readNumber 10 (decimal i.toNat ++ [0x5D]) = some (i.toNat : ℤ) := by
    rw [readNumber_digits_append (decimal_ne_nil _) (fun _ ↦ isDigit_of_mem_decimal)
      (by simp; decide), natOfDigits_decimal]
  rw [Fs.readlink, hlink, Option.getD_some, List.take_of_length_le hlen]
  exact strtoul_of_readNumber hread hlt

/-- What is known of an inode after one descriptor. -/
theorem walkFd_apply {fs : Fs} {fdDir : Bytes} {n : ℕ} {x : Fd} (hx : x.WellNamed)
    (hlink : fs.link (fdDir ++ ofString "/" ++ decimal n) = some x.target) (pid : Int64)
    (map : ℕ → Option Int64) (inode : ℕ) :
    walkFd fs fdDir pid map (decimal n) inode =
      (map inode).or (if inode ≠ 0 ∧ x.isSocket inode then some pid else none) := by
  have hname : ¬ (decimal n).head? = some 0x2E := fun h ↦
    absurd (isDigit_of_mem_decimal (List.mem_of_mem_head? h)) (by decide)
  have hbegins := isPrefixOf_readlink_iff hlink
  rw [walkFd, if_neg hname]
  dsimp only
  cases x with
  | other target =>
    rw [if_neg (hbegins.not.2 hx), if_neg (by simp [Fd.isSocket]), Option.or_none]
  | socket i =>
    rw [if_pos (hbegins.2 (List.prefix_append _ _)), strtoul_socket hlink]
    by_cases hzero : i.toNat = 0
    · -- no socket has the inode 0
      rw [if_neg (not_not.2 hzero), if_neg, Option.or_none]
      rintro ⟨hne, hi⟩
      exact hne ((of_decide_eq_true hi).symm.trans hzero)
    · rw [if_pos hzero, emplace_apply]
      congr 1
      by_cases hi : i.toNat = inode
      · rw [if_pos hi, if_pos ⟨hi ▸ hzero, decide_eq_true hi⟩]
      · rw [if_neg hi, if_neg fun h ↦ hi (of_decide_eq_true h.2)]

/-- What is known of an inode after one process. -/
theorem walkPid_apply {fs : Fs} {t : Task} (h : fs.Shows t) (acc : (ℕ → Option Int64) × ℕ)
    (inode : ℕ) :
    (walkPid fs acc (decimal t.pid)).1 inode =
      (acc.1 inode).or
        (if inode ≠ 0 ∧ t.holds inode then some (Int64.ofNat t.pid) else none) := by
  rw [walkPid, h.fdDir, strtoll_decimal t.pid_lt, Task.holds]
  cases hfds : t.fds with
  | error e =>
    simp only [Except.map, Bool.false_eq_true, and_false, if_false, Option.or_none]
    split <;> rfl
  | ok fds =>
    have hskip (map : ℕ → Option Int64) (fdDir : Bytes) :
        [ofString ".", ofString ".."].foldl (walkFd fs fdDir (Int64.ofNat t.pid)) map = map := rfl
    simp only [Except.map]
    rw [List.foldl_append, hskip, List.foldl_map]
    refine (foldl_or (fun map : ℕ → Option Int64 ↦ map inode) (fun map x hx ↦ walkFd_apply
      (t.fds_wellNamed fds hfds x hx) (h.fd fds hfds x hx) (Int64.ofNat t.pid) map inode)
      acc.1).trans ?_
    congr 1
    by_cases hzero : inode = 0
    · rw [List.findSome?_eq_none_iff.2 (by simp [hzero]), if_neg (by simp [hzero])]
    · simp only [ne_eq, hzero, not_false_eq_true, true_and]
      rw [findSome?_ite (fun x : ℕ × Fd ↦ x.2.isSocket inode) fun _ ↦ Int64.ofNat t.pid]
      by_cases hany : (fds.any fun x ↦ x.2.isSocket inode) = true
      · obtain ⟨x, hx⟩ := Option.isSome_iff_exists.1 (List.find?_isSome.2 (List.any_eq_true.1 hany))
        rw [hx, if_pos hany]
        rfl
      · rw [List.find?_eq_none.2 fun x hx hsocket ↦ hany (List.any_eq_true.2 ⟨x, hx, hsocket⟩),
          if_neg hany]
        rfl

/-- **Who owns a socket**: the first process of the directory that has it open. No socket has the
inode 0. -/
theorem inodeToPid_eq {fs : Fs} {tasks : List Task} (h : fs.Lists tasks) (inode : ℕ) :
    fs.owners.inodeToPid inode =
      if inode = 0 then none
      else (tasks.find? (Task.holds inode)).map fun t ↦ Int64.ofNat t.pid := by
  obtain ⟨names, hdir, hnames⟩ := h.dir
  have hfold : fs.owners.inodeToPid inode =
      ((names.filter isNumber).foldl (walkPid fs) (fun _ ↦ none, 0)).1 inode := by
    simp only [Fs.owners, buildInodeToPid, hdir]
  rw [hfold, hnames, List.foldl_map]
  refine (foldl_or (fun acc : (ℕ → Option Int64) × ℕ ↦ acc.1 inode)
    (fun acc t ht ↦ walkPid_apply (h.shows t ht) acc inode) _).trans ?_
  rw [Option.none_or]
  by_cases hzero : inode = 0
  · rw [List.findSome?_eq_none_iff.2 (by simp [hzero]), if_pos hzero]
  · simp only [ne_eq, hzero, not_false_eq_true, true_and, if_false]
    exact findSome?_ite (Task.holds inode) (fun t ↦ Int64.ofNat t.pid) tasks

end NanoSensor.Platform
