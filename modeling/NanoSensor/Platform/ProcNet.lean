import NanoSensor.Foundation.Blanks
import NanoSensor.Foundation.Getline
import NanoSensor.Foundation.Numerals
import NanoSensor.Foundation.StdLib
import NanoSensor.Inventory.Record

/-!
# The socket tables of the kernel

`parse_proc_net` of `src/platform/platform_linux.cpp` reads a table of `/proc/net`, one socket a
line, and `collect_listening_sockets` joins each socket to the process that has its inode open.

The layout of a line is the kernel's: `IsTable` says that a text is a table of given rows, with the
columns where proc(5) has them and whatever the columns hold that nothing reads. On such a text the
parser finds every row, its address and its port. But it counts eight columns where the kernel has
ten: it does not know of `tr tm->when` and `retrnsmt`, which stand before `uid`. So what it takes
for the inode is the number of the user (`parseProcNet_table`), and the result is right exactly for
rows in which the two are equal (`parseProcNet_eq_iff`). The join then looks for the wrong inode
(`collectListeningSockets_tables`).

`unsigned long` has the 64 bits it has on Linux.
-/

namespace NanoSensor.Platform

open Bytes Delimited

/-! ### The parser -/

/-- `inet_ntop`, on the words of an address as they are in memory. The buffers it is given are large
enough for it not to fail. -/
structure Inet where
  ntop : List UInt32 → Option Bytes
  isSome_ntop : ∀ words, words.length = 1 ∨ words.length = 4 → (ntop words).isSome = true

/-- A word of an address. -/
def hexWord (hex : Bytes) : UInt32 :=
  UInt32.ofNat (strtoul 64 16 hex)

/-- `parse_hex_addr`: the address, and whether it is one of IPv6. -/
def parseHexAddr (inet : Inet) (hex : Bytes) : Option (Bytes × Bool) :=
  if hex.length = 8 then (inet.ntop [hexWord hex]).map (·, false)
  else if hex.length = 32 then
    (inet.ntop ((List.range 4).map fun i ↦ hexWord ((hex.drop (i * 8)).take 8))).map (·, true)
  else none

/-- `is_wildcard`. -/
def isWildcard (addr : Bytes) : Bool :=
  addr = ofString "0.0.0.0" || addr = ofString "::"

/-- `kTcpListen`. -/
def kTcpListen : ℕ := 0x0A

/-- `struct RawSocket`. -/
structure RawSocket where
  proto : Bytes
  addr : Bytes
  port : UInt16
  inode : ℕ
  deriving DecidableEq

/-- What stands before the last `c` of a text, and what behind it. -/
def splitLast (c : UInt8) (s : Bytes) : Option (Bytes × Bytes) :=
  match s.reverse.dropWhile (· ≠ c) with
  | [] => none
  | _ :: front => some (front.reverse, (s.reverse.takeWhile (· ≠ c)).reverse)

/-- The body of the loop over the lines, with `none` for `continue`. The columns have the names they
have in the program. -/
def parseLine (inet : Inet) (proto : Bytes) (tcpOnlyListen : Bool) (line : Bytes) :
    Option RawSocket :=
  -- `ls >> sl >> ... >> inode` takes the first eight words
  match words isSpace line with
  | _sl :: localAddress :: _rem :: st :: _txrx :: _uid :: _timeout :: inode :: _ =>
    if tcpOnlyListen = true ∧ strtol 63 16 st ≠ kTcpListen then none
    else
      match splitLast 0x3A localAddress with
      | none => none
      | some (hex, port) =>
        match parseHexAddr inet hex with
        | none => none
        | some (addr, _) =>
          some ⟨proto, addr, UInt16.ofNat (strtoul 64 16 port), strtoul 64 10 inode⟩
  | _ => none

/-- `parse_proc_net`, on the text of the file, if it can be opened. -/
def parseProcNet (inet : Inet) (file : Option Bytes) (proto : Bytes) (tcpOnlyListen : Bool)
    (out : List RawSocket) : Bool × List RawSocket :=
  match file with
  | none => (false, out)
  | some text =>
    (true, out ++ ((getlines 0x0A text).drop 1).filterMap (parseLine inet proto tcpOnlyListen))

/-! ### The join -/

/-- What is known of the processes: `build_inode_to_pid`, with the number of processes that could
not be looked at, and `process_comm`. -/
structure Owners where
  inodeToPid : ℕ → Option Int64
  denied : ℕ
  comm : Int64 → Bytes

/-- The body of the loop over the sockets. -/
def Owners.join (owners : Owners) (r : RawSocket) : ListeningSocket where
  proto := r.proto
  localAddr := r.addr
  localPort := r.port
  pid := (owners.inodeToPid r.inode).getD (-1)
  processName := ((owners.inodeToPid r.inode).map owners.comm).getD []
  worldReachable := isWildcard r.addr

/-- The four tables: the file, the protocol, and whether only listening sockets count. -/
def tables : List (Bytes × Bytes × Bool) :=
  [(ofString "/proc/net/tcp", ofString "tcp", true),
    (ofString "/proc/net/tcp6", ofString "tcp6", true),
    -- "UDP has no listening state, so every bound socket is reported."
    (ofString "/proc/net/udp", ofString "udp", false),
    (ofString "/proc/net/udp6", ofString "udp6", false)]

/-- By protocol and port. -/
def socketLt (a b : ListeningSocket) : Bool :=
  if a.proto ≠ b.proto then a.proto.map UInt8.toNat < b.proto.map UInt8.toNat
  else a.localPort < b.localPort

/-- `collect_listening_sockets`: the sockets and the warnings. -/
def collectListeningSockets (std : StdLib) (inet : Inet) (owners : Owners)
    (files : Bytes → Option Bytes) : List ListeningSocket × List Bytes :=
  let raw := tables.foldl (fun out t ↦ (parseProcNet inet (files t.1) t.2.1 t.2.2 out).2) []
  let unread := (tables.filter fun t ↦ (files t.1).isNone).map fun t ↦
    ofString "could not read " ++ t.1
  let denied :=
    if owners.denied > 0 then
      [decimal owners.denied ++ ofString (" processes denied fd enumeration (run as root to " ++
        "resolve every socket to its owning process)")]
    else []
  (std.sort socketLt (raw.map owners.join), unread ++ denied)

/-! ### The layout -/

/-- A row of a table. -/
structure SocketRow where
  address : List UInt32
  length_address : address.length = 1 ∨ address.length = 4
  port : UInt16
  state : UInt8
  uid : UInt32
  inode : UInt64

namespace SocketRow

/-- The local address and the local port, as `%08X` for each word and `%04X`. -/
def localAddress (r : SocketRow) : Bytes :=
  r.address.flatMap (fun w ↦ padded 16 8 w.toNat) ++ 0x3A :: padded 16 4 r.port.toNat

/-- `line` is this row in the layout of proc(5): the columns `sl`, `local_address`, `rem_address`,
`st`, `tx_queue:rx_queue`, `tr:tm->when`, `retrnsmt`, `uid`, `timeout`, `inode`, and more. -/
structure Rendered (r : SocketRow) (line : Bytes) : Prop where
  newline : 0x0A ∉ line
  columns : ∃ sl rem txrx tr retrnsmt timeout rest, words isSpace line =
    sl :: r.localAddress :: rem :: padded 16 2 r.state.toNat :: txrx :: tr :: retrnsmt ::
      decimal r.uid.toNat :: timeout :: decimal r.inode.toNat :: rest

/-- The socket that should come of the row. -/
def socket (inet : Inet) (proto : Bytes) (r : SocketRow) : RawSocket where
  proto := proto
  addr := (inet.ntop r.address).getD []
  port := r.port
  inode := r.inode.toNat

/-- The socket that does come of it. -/
def parsed (inet : Inet) (proto : Bytes) (r : SocketRow) : RawSocket :=
  { r.socket inet proto with inode := r.uid.toNat }

/-- Whether the row counts. -/
def counts (tcpOnlyListen : Bool) (r : SocketRow) : Bool :=
  !tcpOnlyListen || r.state.toNat = kTcpListen

end SocketRow

/-- A text is a table of these rows: a header, and a line for every row. -/
structure IsTable (rows : List SocketRow) (text : Bytes) : Prop where
  lines : ∃ header lines, 0x0A ∉ header ∧ List.Forall₂ SocketRow.Rendered rows lines ∧
    text = terminate 0x0A (header :: lines)

/-! ### Reading the columns -/

section Columns

variable (inet : Inet)

theorem splitLast_append {c : UInt8} {front back : Bytes} (h : c ∉ back) :
    splitLast c (front ++ c :: back) = some (front, back) := by
  have hback : ∀ b ∈ back.reverse, decide (b ≠ c) = true := fun b hb ↦
    decide_eq_true fun heq ↦ h (heq ▸ List.mem_reverse.1 hb)
  rw [splitLast, List.reverse_append, List.reverse_cons, List.append_assoc, List.singleton_append,
    List.dropWhile_append_of_pos hback, List.takeWhile_append_of_pos hback]
  simp

theorem hexWord_padded (w : UInt32) : hexWord (padded 16 8 w.toNat) = w := by
  have hlt : w.toNat < 2 ^ 32 := w.toNat_lt
  rw [hexWord, strtoul_of_readNumber (readNumber_padded (by decide) le_rfl (by decide)
    (by omega)) (by omega), UInt32.ofNat_toNat]

/-- The words of the address are read back. -/
theorem parseHexAddr_words {address : List UInt32} (h : address.length = 1 ∨ address.length = 4) :
    ∃ v6, parseHexAddr inet (address.flatMap fun w ↦ padded 16 8 w.toNat) =
      (inet.ntop address).map (·, v6) := by
  rcases h with h | h
  · obtain ⟨a, rfl⟩ := List.length_eq_one_iff.1 h
    refine ⟨false, ?_⟩
    rw [List.flatMap_singleton, parseHexAddr, if_pos (length_padded 16 8 _), hexWord_padded]
  · refine ⟨true, ?_⟩
    have hlen : (address.flatMap fun w ↦ padded 16 8 w.toNat).length = 32 := by
      simp [List.length_flatMap, h]
    have hwords : ((List.range 4).map fun i ↦ hexWord
        (((address.flatMap fun w ↦ padded 16 8 w.toNat).drop (i * 8)).take 8)) = address := by
      have hblocks := blocks_flatMap (fun w : UInt32 ↦ length_padded 16 8 w.toNat) address
      rw [h] at hblocks
      have hread := congrArg (List.map hexWord) hblocks
      simpa [Function.comp_def, hexWord_padded] using hread
    rw [parseHexAddr, if_neg (by rw [hlen]; decide), if_pos hlen, hwords]

/-! ### Reading a line -/

/-- **A line of the table**: the row if it counts, with the number of the user for the inode. -/
theorem parseLine_rendered {r : SocketRow} {line : Bytes} (h : r.Rendered line) (proto : Bytes)
    (tcpOnlyListen : Bool) :
    parseLine inet proto tcpOnlyListen line =
      if r.counts tcpOnlyListen then some (r.parsed inet proto) else none := by
  obtain ⟨sl, rem, txrx, tr, retrnsmt, timeout, rest, hcolumns⟩ := h.columns
  have hstate : strtol 63 16 (padded 16 2 r.state.toNat) = r.state.toNat := by
    have hlt : r.state.toNat < 2 ^ 8 := r.state.toNat_lt
    exact strtol_of_readNumber (readNumber_padded (by decide) le_rfl (by decide) (by omega))
      (by omega)
  have hcolon : 0x3A ∉ padded 16 4 r.port.toNat := fun hmem ↦
    absurd (isDigitIn_of_mem_padded (by decide) le_rfl hmem) (by decide)
  have hport : UInt16.ofNat (strtoul 64 16 (padded 16 4 r.port.toNat)) = r.port := by
    have hlt : r.port.toNat < 2 ^ 16 := r.port.toNat_lt
    rw [strtoul_of_readNumber (readNumber_padded (by decide) le_rfl (by decide) (by omega))
      (by omega), UInt16.ofNat_toNat]
  -- the eighth column of the kernel is the number of the user
  have huid : strtoul 64 10 (decimal r.uid.toNat) = r.uid.toNat := by
    have hlt : r.uid.toNat < 2 ^ 32 := r.uid.toNat_lt
    exact strtoul_of_readNumber (readNumber_decimal _) (by omega)
  obtain ⟨v6, haddr⟩ := parseHexAddr_words inet r.length_address
  obtain ⟨addr, hntop⟩ := Option.isSome_iff_exists.1 (inet.isSome_ntop _ r.length_address)
  rw [hntop, Option.map_some] at haddr
  have hlocal : splitLast 0x3A r.localAddress = _ := splitLast_append hcolon
  rw [parseLine, hcolumns]
  simp only [hstate, hlocal, haddr, hport, huid, SocketRow.counts, SocketRow.parsed,
    SocketRow.socket, hntop, Option.getD_some]
  rcases tcpOnlyListen with - | -
  · rfl
  · by_cases hlisten : r.state.toNat = kTcpListen
    · simp [hlisten]
    · simp [hlisten]

/-- The lines of a table, one after the other. -/
theorem filterMap_parseLine {rows : List SocketRow} {lines : List Bytes}
    (h : List.Forall₂ SocketRow.Rendered rows lines) (proto : Bytes) (tcpOnlyListen : Bool) :
    lines.filterMap (parseLine inet proto tcpOnlyListen) =
      (rows.filter (SocketRow.counts tcpOnlyListen)).map (SocketRow.parsed inet proto) := by
  induction h with
  | nil => rfl
  | @cons r line rows lines hr _ ih =>
    rw [List.filterMap_cons, parseLine_rendered inet hr, List.filter_cons, ih]
    rcases r.counts tcpOnlyListen with - | -
    · rfl
    · rfl

omit inet in
theorem newline_of_rendered {rows : List SocketRow} {lines : List Bytes}
    (h : List.Forall₂ SocketRow.Rendered rows lines) : ∀ line ∈ lines, 0x0A ∉ line := by
  induction h with
  | nil => nofun
  | cons hr _ ih => exact List.forall_mem_cons.2 ⟨hr.newline, ih⟩

/-- **A table**: every row that counts, in order, with the number of the user for the inode. -/
theorem parseProcNet_table {rows : List SocketRow} {text : Bytes} (h : IsTable rows text)
    (proto : Bytes) (tcpOnlyListen : Bool) (out : List RawSocket) :
    parseProcNet inet (some text) proto tcpOnlyListen out =
      (true, out ++
        (rows.filter (SocketRow.counts tcpOnlyListen)).map (SocketRow.parsed inet proto)) := by
  obtain ⟨header, lines, hheader, hrendered, rfl⟩ := h.lines
  have hnewline : ∀ line ∈ header :: lines, 0x0A ∉ line :=
    List.forall_mem_cons.2 ⟨hheader, newline_of_rendered hrendered⟩
  rw [parseProcNet, getlines_terminate hnewline, List.drop_one, List.tail_cons,
    filterMap_parseLine inet hrendered]

end Columns

/-- **When the result is right.** For every text that is a table, the parser returns its rows in
order, each with its address, its port and its inode, exactly if the inode of every row that counts
is the number of its user. -/
theorem parseProcNet_eq_iff (inet : Inet) {rows : List SocketRow} {text : Bytes}
    (h : IsTable rows text) (proto : Bytes) (tcpOnlyListen : Bool) (out : List RawSocket) :
    parseProcNet inet (some text) proto tcpOnlyListen out =
      (true, out ++
        (rows.filter (SocketRow.counts tcpOnlyListen)).map (SocketRow.socket inet proto)) ↔
    ∀ r ∈ rows, r.counts tcpOnlyListen = true → r.uid.toNat = r.inode.toNat := by
  rw [parseProcNet_table inet h, Prod.mk_inj, List.append_cancel_left_eq, List.map_inj_left]
  simp only [true_and, List.mem_filter, and_imp]
  refine forall₃_congr fun r _ _ ↦ ⟨fun heq ↦ congrArg RawSocket.inode heq, fun heq ↦ ?_⟩
  rw [SocketRow.parsed, heq]
  rfl

/-! ### The texts of addresses -/

/-- The bytes of an address in memory, where the low byte of a word comes first. -/
def addressBytes (address : List UInt32) : List ℕ :=
  address.flatMap fun w ↦ (List.range 4).map fun i ↦ w.toNat / 256 ^ i % 256

/-- The text of an address of IPv4. -/
def ntop4 (bytes : List ℕ) : Bytes :=
  [0x2E].intercalate (bytes.map decimal)

/-- `%x`. -/
def lowerHex (n : ℕ) : Bytes :=
  ofString (String.ofList (Nat.toDigits 16 n))

/-- Where the longest run of zeros begins, the first of them, and how long it is. -/
def zeroRun (groups : List ℕ) : ℕ × ℕ :=
  (List.range groups.length).foldl (fun best i ↦
    let length := ((groups.drop i).takeWhile (· = 0)).length
    if best.2 < length then (i, length) else best) (0, 0)

/-- The text of an address of IPv6: two colons for the longest run of zeros, and the last four bytes
as those of IPv4 if the address stands for one. -/
def ntop6 (bytes : List ℕ) : Bytes :=
  let groups := (List.range 8).map fun i ↦ bytes.getD (2 * i) 0 * 256 + bytes.getD (2 * i + 1) 0
  let text := fun groups ↦ [0x3A].intercalate (groups.map lowerHex)
  let (start, length) := zeroRun groups
  if length < 2 then text groups
  else if start = 0 ∧ length = 6 then ofString "::" ++ ntop4 (bytes.drop 12)
  else if start = 0 ∧ length = 5 ∧ groups.getD 5 0 = 0xFFFF then
    ofString "::ffff:" ++ ntop4 (bytes.drop 12)
  else text (groups.take start) ++ ofString "::" ++ text (groups.drop (start + length))

/-- `inet_ntop` as the C library of Linux has it. -/
def linuxInet : Inet where
  ntop address :=
    if address.length = 1 then some (ntop4 (addressBytes address))
    else if address.length = 4 then some (ntop6 (addressBytes address))
    else none
  isSome_ntop address h := by
    rcases h with h | h
    · rw [if_pos h]
      rfl
    · rw [if_neg (by omega), if_pos h]
      rfl

example : linuxInet.ntop [0x0100007F] = some (ofString "127.0.0.1") := by decide +kernel

example : linuxInet.ntop [0x000080FE, 0, 0, 0x01000000] = some (ofString "fe80::1") := by
  decide +kernel

/-! ### A table with one socket -/

/-- A program of user 1000 that listens on port 8080 of this address. -/
def listener (address : UInt32) (inode : UInt64) : SocketRow where
  address := [address]
  length_address := Or.inl rfl
  port := 8080
  state := 0x0A
  uid := 1000
  inode := inode

/-- Its line, as the kernel prints it. -/
def listenerLine (address : UInt32) (inode : UInt64) : Bytes :=
  ofString "   0:" ++ 0x20 :: ((listener address inode).localAddress ++ 0x20 ::
    (ofString ("00000000:0000 0A 00000000:00000000 00:00000000 00000000  1000        0") ++
      0x20 :: (decimal inode.toNat ++ 0x20 :: ofString "1 0000000000000000 100 0 0 10 0")))

/-- The table with that socket. -/
def listenerTable (address : UInt32) (inode : UInt64) : Bytes :=
  terminate 0x0A
    [ofString ("  sl  local_address rem_address   st tx_queue rx_queue tr tm->when retrnsmt" ++
      "   uid  timeout inode"), listenerLine address inode]

/-- No blank is in the local address. -/
theorem not_isSpace_of_mem_localAddress {r : SocketRow} {b : UInt8} (hb : b ∈ r.localAddress) :
    isSpace b = false := by
  have hhex {width n : ℕ} (h : b ∈ padded 16 width n) : isSpace b = false :=
    (of_isDigitIn (isDigitIn_of_mem_padded (by decide) le_rfl h)).1
  rcases List.mem_append.1 hb with hb | hb
  · obtain ⟨w, -, hw⟩ := List.mem_flatMap.1 hb
    exact hhex hw
  · rcases List.mem_cons.1 hb with rfl | hb
    · rfl
    · exact hhex hb

theorem isTable_listenerTable (address : UInt32) (inode : UInt64) :
    IsTable [listener address inode] (listenerTable address inode) := by
  have hdigits : ∀ b ∈ decimal inode.toNat, isSpace b = false := fun b hb ↦
    not_isSpace_of_isDigit (isDigit_of_mem_decimal hb)
  have hlocal : ∀ b ∈ (listener address inode).localAddress, isSpace b = false := fun b ↦
    not_isSpace_of_mem_localAddress
  refine ⟨_, _, by decide +kernel, List.Forall₂.cons ⟨?_, ?_⟩ List.Forall₂.nil, rfl⟩
  · simp only [listenerLine, List.mem_append, List.mem_cons]
    rintro (h | h | h | h | h | h | h | h | h)
    · exact absurd h (by decide +kernel)
    · exact absurd h (by decide)
    · exact absurd (hlocal _ h) (by decide)
    · exact absurd h (by decide)
    · exact absurd h (by decide +kernel)
    · exact absurd h (by decide)
    · exact absurd (hdigits _ h) (by decide)
    · exact absurd h (by decide)
    · exact absurd h (by decide +kernel)
  · refine ⟨ofString "0:", ofString "00000000:0000", ofString "00000000:00000000",
      ofString "00:00000000", ofString "00000000", ofString "0",
      ["1", "0000000000000000", "100", "0", "0", "10", "0"].map ofString, ?_⟩
    have hfront : words isSpace (ofString "   0:") = [ofString "0:"] := by
      decide +kernel
    have hmiddle : words isSpace
        (ofString "00000000:0000 0A 00000000:00000000 00:00000000 00000000  1000        0") =
        [ofString "00000000:0000", padded 16 2 (10 : UInt8).toNat, ofString "00000000:00000000",
          ofString "00:00000000", ofString "00000000", decimal (1000 : UInt32).toNat,
          ofString "0"] := by
      decide +kernel
    have hback : words isSpace (ofString "1 0000000000000000 100 0 0 10 0") =
        ["1", "0000000000000000", "100", "0", "0", "10", "0"].map ofString := by
      decide +kernel
    rw [listenerLine, words_append_cons rfl, words_append_cons rfl, words_append_cons rfl,
      words_append_cons rfl, words_of_forall (decimal_ne_nil _) hdigits,
      words_of_forall (by simp [SocketRow.localAddress]) hlocal, hfront, hmiddle, hback]
    rfl

/-- Where the inode happens to be the number of the user, the socket is the one of the row. -/
theorem parseProcNet_eq_same_number :
    parseProcNet linuxInet (some (listenerTable 0x0100007F 1000)) (ofString "tcp") true [] =
      (true, [] ++ ([listener 0x0100007F 1000].filter (SocketRow.counts true)).map
        (SocketRow.socket linuxInet (ofString "tcp"))) := by
  refine (parseProcNet_eq_iff _ (isTable_listenerTable _ 1000) _ _ _).2 fun r hr _ ↦ ?_
  rw [List.mem_singleton.1 hr]
  rfl

/-- Where it is not, the socket is not the one of the row. -/
theorem parseProcNet_ne_listenerTable : ∃ (rows : List SocketRow) (text : Bytes),
    IsTable rows text ∧ ∀ inet : Inet,
      parseProcNet inet (some text) (ofString "tcp") true [] ≠
        (true, (rows.filter (SocketRow.counts true)).map
          (SocketRow.socket inet (ofString "tcp"))) := by
  refine ⟨_, _, isTable_listenerTable 0x0100007F 12345, fun inet heq ↦ ?_⟩
  rw [parseProcNet_table inet (isTable_listenerTable 0x0100007F 12345)] at heq
  have hinode : ([1000] : List ℕ) = [12345] := congrArg (fun r ↦ r.2.map RawSocket.inode) heq
  exact absurd hinode (by decide)

/-! ### What the join makes of it -/

/-- **The join looks for the process that owns the number of the user.** With the four tables given,
what is collected are the sockets of all rows that count, each with the process that has an inode of
that number open. -/
theorem collectListeningSockets_tables (std : StdLib) (inet : Inet) (owners : Owners)
    {files : Bytes → Option Bytes} {rows : Bytes → List SocketRow}
    (h : ∀ t ∈ tables, ∃ text, files t.1 = some text ∧ IsTable (rows t.1) text) :
    (collectListeningSockets std inet owners files).1 =
      std.sort socketLt (tables.flatMap fun t ↦
        ((rows t.1).filter (SocketRow.counts t.2.2)).map fun r ↦
          owners.join (r.parsed inet t.2.1)) := by
  have hfold : ∀ (ts : List (Bytes × Bytes × Bool)) (out : List RawSocket), ts ⊆ tables →
      ts.foldl (fun out t ↦ (parseProcNet inet (files t.1) t.2.1 t.2.2 out).2) out =
        out ++ ts.flatMap fun t ↦
          ((rows t.1).filter (SocketRow.counts t.2.2)).map (SocketRow.parsed inet t.2.1) := by
    intro ts
    induction ts with
    | nil => exact fun out _ ↦ (List.append_nil out).symm
    | cons t ts ih =>
      intro out hsub
      obtain ⟨text, hfile, htable⟩ := h t (hsub List.mem_cons_self)
      rw [List.foldl_cons, hfile, parseProcNet_table inet htable,
        ih _ (List.subset_of_cons_subset hsub), List.flatMap_cons, List.append_assoc]
  rw [collectListeningSockets]
  dsimp only
  rw [hfold tables [] (List.Subset.refl _), List.nil_append, List.map_flatMap]
  simp only [List.map_map, Function.comp_def]

end NanoSensor.Platform
