import Wnr.Foundation.Grouping
import Wnr.Nsock.ConnectBounded
import Wnr.Nsock.ConnectThreads
import Wnr.Nsock.Naps
import Wnr.Scan.ScanArgs

/-! # The connect scan

The `--scan` command asks a pool for a connect to each port, runs the loop until no event
is left, and reports every port. Whatever order the connects end in, the report of a port
is what its own attempt and its own deadline come to (`Wnr.Scan.scan_reports`), and every
scan comes to an end (`Wnr.Scan.scan_finishes`).
-/

namespace Wnr.Scan

open Text Wnr.Nsock Net

/-! ## The output -/

/-- A line of the output. -/
inductive Line where
  | noHost
  | unresolved (host : List Char)
  | header (host : List Char) (ports : Nat) (timeoutMs : Int)
  | port (port : UInt16) (isOpen : Bool)
  | done (host : List Char) (responded total opened closed : Nat)
deriving DecidableEq

/-- A number with its sign. -/
def signedDecimal (value : Int) : List Char :=
  if value < 0 then '-' :: decimal value.natAbs else decimal value.natAbs

/-- Align to the right in five columns. -/
def padded (text : List Char) : List Char := List.replicate (5 - text.length) ' ' ++ text

/-- The text of a line; `elapsed` is how the duration of the scan is printed. -/
def Line.text (elapsed : List Char) : Line → List Char
  | .noHost => "no host specified".toList
  | .unresolved host => "could not resolve host '".toList ++ host ++ "'".toList
  | .header host ports timeoutMs =>
      "WNR connect-scan of ".toList ++ host ++ " (".toList ++ decimal ports ++
        " port(s), timeout ".toList ++ signedDecimal timeoutMs ++ "ms)".toList
  | .port p isOpen =>
      padded (decimal p.toNat) ++ '/' :: (if isOpen then "tcp open" else "tcp closed").toList
  | .done host responded total opened closed =>
      "WNR done: ".toList ++ host ++ " host(s) scanned (".toList ++ decimal responded ++
        "/".toList ++ decimal total ++ " port(s) responded: ".toList ++ decimal opened ++
        " open, ".toList ++ decimal closed ++ " closed) in ".toList ++ elapsed

theorem text_port (elapsed : List Char) (p : UInt16) (isOpen : Bool) :
    (Line.port p isOpen).text elapsed =
      padded (decimal p.toNat) ++ '/' :: (if isOpen then "tcp open" else "tcp closed").toList :=
  rfl

/-- The lines of ports tell which port they are about. -/
theorem read_portText (elapsed : List Char) (port : UInt16) (isOpen : Bool) :
    parseU16 (trim ((Line.text elapsed (.port port isOpen)).takeWhile (· ≠ '/'))) = some port := by
  have plain : ∀ c ∈ padded (decimal port.toNat), decide (c ≠ '/') = true := by
    intro c member
    rw [padded, List.mem_append] at member
    rcases member with pad | digit
    · rw [List.eq_of_mem_replicate pad]
      rfl
    · rw [decide_eq_true_iff]
      rintro rfl
      exact absurd (isDigit_of_mem_decimal digit) (by decide)
  have blank : Blank (List.replicate (5 - (decimal port.toNat).length) ' ') := by
    intro c member
    rw [List.eq_of_mem_replicate member]
    rfl
  have none : Blank [] := fun c member => absurd member List.not_mem_nil
  have word := trim_word blank (isWord_decimal port.toNat) none
  rw [List.append_nil] at word
  rw [text_port, List.takeWhile_append_of_pos plain, List.takeWhile_cons_of_neg (by decide),
    List.append_nil, padded, word, parseU16_decimal]

/-! ## The scan -/

/-- What the world does during a scan. -/
structure World where
  /-- The addresses that a host name resolves to. -/
  resolve : List Char → List SocketAddr
  /-- The clock when each connect is asked for. -/
  clock : Nat → Instant
  /-- The clock when the loop starts. -/
  start : Instant
  passes : List Pool.Pass

/-- Ask for a connect to a port. -/
def askPort (ip : IpAddr) (timeoutMs : Int) (pool : Pool) (request : UInt16 × Instant) : Pool :=
  let (iod, pool) := pool.createIodTcp
  (pool.connectTcp iod (.new ip request.1) timeoutMs request.2).2

/-- Ask for the connects of a scan. -/
def askAll (ip : IpAddr) (timeoutMs : Int) (requests : List (UInt16 × Instant)) : Pool :=
  requests.foldl (askPort ip timeoutMs) .new

/-- What the handler of a connect prints. -/
def report (ports : List UInt16) : Effect → Option Line
  | .called owner _ status => ports[owner - 1]?.map fun port => .port port (status = .success)
  | _ => none

/-- A report of an open port. -/
def Line.isOpen : Line → Bool
  | .port _ isOpen => isOpen
  | _ => false

/-- The output of a scan of a host, once its loop has returned. -/
def scan (world : World) (args : ScanArgs) (host : List Char) (addr : SocketAddr) :
    Option (List Line) :=
  let ports := args.scanned
  let pool := askAll addr.ip args.timeoutMs (ports.mapIdx fun i port => (port, world.clock i))
  match pool.run (-1) world.start world.passes with
  | (none, _) => none
  | (some _, pool) =>
      let reports := pool.log.filterMap (report ports)
      let opened := reports.countP Line.isOpen
      let closed := reports.countP fun line => !line.isOpen
      some (.header host ports.length args.timeoutMs ::
        (reports ++ [.done host (opened + closed) ports.length opened closed]))

/-- The `--scan` command. -/
def cmdScan (world : World) (args : List (List Char)) : Option (List Line) :=
  let args := parseArgs args .initial
  match args.host with
  | none => some [.noHost]
  | some host =>
      match world.resolve host with
      | [] => some [.unresolved host]
      | addr :: _ => scan world args host addr

/-! ## The connects of a scan -/

variable {ip : IpAddr} {timeoutMs : Int} {requests : List (UInt16 × Instant)} {pool : Pool}
  {id : EventId} {e : Pending}

/-- How long a connect may take. -/
def connectTimeout (timeoutMs : Int) : Nat :=
  if timeoutMs < 0 then secs 3600 else millis timeoutMs.toNat

/-- The pool of a scan before its loop: one connect for each port, on a descriptor of its
own with the same id. -/
structure Requested (timeoutMs : Int) (requests : List (UInt16 × Instant)) (pool : Pool) :
    Prop where
  solo : pool.Solo
  events : pool.eventCounter = requests.length
  iods : pool.iodCounter = requests.length
  opened : ∀ id e, pool.Open id e → e.kind = .connect ∧ e.iod = some id ∧
    ∃ port now, 0 < id ∧ requests[id - 1]? = some (port, now) ∧
      e.deadline = some (now + connectTimeout timeoutMs)
  named : ∀ id, 0 < id → id ≤ requests.length → ∃ e, pool.Open id e
  matched : ∀ thread ∈ pool.connecting, thread.iod = thread.event ∧ thread.event ≤ requests.length
  quiet : ∀ id, calls id pool.log = []

theorem not_open_new (id : EventId) (e : Pending) : ¬ Pool.new.Open id e := by
  intro held
  cases held.1

theorem requested_new (timeoutMs : Int) : Requested timeoutMs [] .new where
  solo :=
    { toSound := Pool.sound_new
      distinct := .nil
      threads := fun _ working => absurd working List.not_mem_nil
      own := fun id e held => absurd held (not_open_new id e)
      empty := rfl
      going := rfl }
  events := rfl
  iods := rfl
  opened id e held := absurd held (not_open_new id e)
  named _ positive le := absurd le (Nat.not_le.mpr positive)
  matched _ working := absurd working List.not_mem_nil
  quiet _ := rfl

/-- What is held for the next connect. -/
def nextConnect (pool : Pool) (timeoutMs : Int) (now : Instant) : Pending :=
  { id := pool.eventCounter + 1
    iod := some (pool.iodCounter + 1)
    kind := .connect
    handler := .caller (pool.eventCounter + 1)
    deadline := some (now + connectTimeout timeoutMs)
    buf := []
    wbuf := none
    target := 0
    lineRead := false
    cancelled := false
    done := false }

theorem sound_askPort (sound : pool.Sound) (ip : IpAddr) (timeoutMs : Int)
    (request : UInt16 × Instant) : (askPort ip timeoutMs pool request).Sound :=
  Pool.execute_invariant (fun _ _ _ sound taken => (taken.change sound).sound sound)
    [.createIodTcp,
      .connectTcp (pool.iodCounter + 1) (.new ip request.1) timeoutMs request.2] sound

/-- The events after a request: the new one, and those from before it. -/
theorem open_askPort_iff (ip : IpAddr) (timeoutMs : Int) (port : UInt16) (now : Instant) :
    (askPort ip timeoutMs pool (port, now)).Open id e ↔
      if id = pool.eventCounter + 1 then e = nextConnect pool timeoutMs now else pool.Open id e := by
  have pending : (askPort ip timeoutMs pool (port, now)).pending =
    pool.pending.insert (pool.eventCounter + 1) (nextConnect pool timeoutMs now) := rfl
  rw [Pool.Open, pending]
  split
  · rename_i same
    rw [same, AList.lookup_insert, Option.some.injEq]
    constructor
    · exact fun held => held.1.symm
    · rintro rfl
      exact ⟨rfl, rfl⟩
  · rename_i ne
    rw [AList.lookup_insert_ne ne, Pool.Open]

theorem requested_askPort (held : Requested timeoutMs requests pool) (ip : IpAddr)
    (port : UInt16) (now : Instant) :
    Requested timeoutMs (requests ++ [(port, now)]) (askPort ip timeoutMs pool (port, now)) := by
  have events := held.events
  have iods := held.iods
  have length : (requests ++ [(port, now)]).length = requests.length + 1 := List.length_append
  have connecting : (askPort ip timeoutMs pool (port, now)).connecting = pool.connecting ++
      [⟨requests.length + 1, requests.length + 1, .new ip port⟩] := by
    calc (askPort ip timeoutMs pool (port, now)).connecting = pool.connecting ++
        [⟨pool.eventCounter + 1, pool.iodCounter + 1, .new ip port⟩] := rfl
      _ = _ := by rw [events, iods]
  -- Every event is the new one or one from before.
  have cases : ∀ id e, (askPort ip timeoutMs pool (port, now)).Open id e →
      id = requests.length + 1 ∧ e = nextConnect pool timeoutMs now ∨
        id ≤ requests.length ∧ pool.Open id e := by
    intro id e opened
    rw [open_askPort_iff, events] at opened
    split at opened
    · rename_i same
      exact .inl ⟨same, opened⟩
    · exact .inr ⟨events ▸ (held.solo.created id e opened.1).2, opened⟩
  have threads : ∀ thread ∈ pool.connecting ++
      [⟨requests.length + 1, requests.length + 1, .new ip port⟩],
      thread.iod = thread.event ∧ thread.event ≤ requests.length + 1 := by
    intro thread member
    rcases List.mem_append.mp member with old | new
    · obtain ⟨same, le⟩ := held.matched thread old
      exact ⟨same, Nat.le_succ_of_le le⟩
    · obtain rfl := List.mem_singleton.mp new
      exact ⟨rfl, le_rfl⟩
  have opened : ∀ id e, (askPort ip timeoutMs pool (port, now)).Open id e → e.kind = .connect ∧
      e.iod = some id ∧ ∃ port' now', 0 < id ∧
        (requests ++ [(port, now)])[id - 1]? = some (port', now') ∧
        e.deadline = some (now' + connectTimeout timeoutMs) := by
    intro id e opened
    rcases cases id e opened with ⟨rfl, rfl⟩ | ⟨le, before⟩
    · refine ⟨rfl, congrArg (fun n => some (n + 1)) iods, port, now, Nat.succ_pos _, ?_, rfl⟩
      rw [Nat.add_sub_cancel, List.getElem?_concat_length]
    · obtain ⟨kind, iod, port', now', positive, listed, deadline⟩ := held.opened id e before
      refine ⟨kind, iod, port', now', positive, ?_, deadline⟩
      rw [List.getElem?_append_left (Nat.lt_of_lt_of_le (Nat.sub_lt positive Nat.one_pos) le)]
      exact listed
  refine ⟨⟨sound_askPort held.solo.toSound ip timeoutMs (port, now), ?_, ?_, ?_, held.solo.empty,
    held.solo.going⟩, ?_, ?_, opened, ?_, ?_, ?_⟩
  · rw [connecting, List.map_append, List.map_singleton, ← List.concat_eq_append]
    refine held.solo.distinct.concat fun taken => ?_
    obtain ⟨thread, working, same⟩ := List.mem_map.mp taken
    have le := (held.matched thread working).2
    rw [same] at le
    exact Nat.not_succ_le_self _ le
  · intro thread working id e live _ iod
    rw [connecting] at working
    rw [← (threads thread working).1]
    exact Option.some.inj ((opened id e live).2.1.symm.trans iod)
  · intro id e live kind
    rw [connecting]
    rcases cases id e live with ⟨rfl, rfl⟩ | ⟨le, before⟩
    · exact ⟨_, List.mem_concat_self, rfl, (opened _ _ live).2.1⟩
    · obtain ⟨thread, working, same⟩ := held.solo.own id e before kind
      exact ⟨thread, List.mem_append_left _ working, same⟩
  · rw [length, ← events]
    rfl
  · rw [length, ← iods]
    rfl
  · intro id positive le
    rw [length] at le
    rcases Nat.lt_or_ge requests.length id with last | before
    · obtain rfl := Nat.le_antisymm le last
      exact ⟨nextConnect pool timeoutMs now, (open_askPort_iff ip timeoutMs port now).mpr
        (by rw [if_pos (congrArg (· + 1) events.symm)])⟩
    · obtain ⟨e, live⟩ := held.named id positive before
      refine ⟨e, (open_askPort_iff ip timeoutMs port now).mpr ?_⟩
      rw [if_neg (Nat.ne_of_lt (Nat.lt_succ_of_le (events ▸ before)))]
      exact live
  · intro thread working
    rw [length]
    rw [connecting] at working
    exact threads thread working
  · intro id
    have log : (askPort ip timeoutMs pool (port, now)).log = pool.log ++
      [.requested (pool.eventCounter + 1) .connect (some (pool.iodCounter + 1)) none] := rfl
    rw [log, Pool.calls_append, held.quiet id]
    rfl

theorem requested_askAll (ip : IpAddr) (timeoutMs : Int) (requests : List (UInt16 × Instant)) :
    Requested timeoutMs requests (askAll ip timeoutMs requests) := by
  induction requests using List.reverseRecOn with
  | nil => exact requested_new timeoutMs
  | append_singleton requests request ih =>
      rw [askAll, List.foldl_concat]
      exact requested_askPort ih ip request.1 request.2

/-! ## The reports -/

/-- The report that the passes come to for one connect alone. -/
def reportOf (timeoutMs : Int) (passes : List Pool.Pass) (i : Nat) (request : UInt16 × Instant) :
    Line :=
  .port request.1
    (Pool.endingOf (i + 1) (some (request.2 + connectTimeout timeoutMs)) passes = some .success)

/-- A call, by the handler it is of. -/
def calledOf : Effect → Option (EventId × EventStatus)
  | .called owner _ status => some (owner, status)
  | _ => none

/-- The report of a call. -/
def lineOf (ports : List UInt16) (called : EventId × EventStatus) : Option Line :=
  ports[called.1 - 1]?.map fun port => .port port (called.2 = .success)

theorem filterMap_report (ports : List UInt16) (log : List Effect) :
    log.filterMap (report ports) = (log.filterMap calledOf).filterMap (lineOf ports) := by
  rw [List.filterMap_filterMap]
  apply List.filterMap_congr
  intro effect _
  cases effect <;> rfl

theorem valuesOf_calledOf (id : EventId) (log : List Effect) :
    Grouping.valuesOf id (log.filterMap calledOf) = calls id log := by
  rw [Grouping.valuesOf, List.filterMap_filterMap, calls]
  apply List.filterMap_congr
  intro effect _
  cases effect <;> rfl

/-- The entries of a list by their numbers, counted from one. -/
theorem filterMap_range'_getElem? {α β : Type} (f : Nat → α → β) (entries : List α) :
    (List.range' 1 entries.length).filterMap (fun n => entries[n - 1]?.map (f n)) =
      entries.mapIdx fun i entry => f (i + 1) entry := by
  induction entries using List.reverseRecOn with
  | nil => rfl
  | append_singleton entries entry ih =>
      rw [List.length_append, List.length_singleton, List.range'_concat, List.filterMap_append,
        List.mapIdx_concat, ← ih]
      congr 1
      · apply List.filterMap_congr
        intro n member
        rw [List.mem_range'_1] at member
        rw [List.getElem?_append_left (by omega)]
      · simp [Nat.add_comm]

theorem Requested.run_eq (held : Requested timeoutMs requests pool) (start : Instant)
    (passes : List Pool.Pass) :
    pool.run (-1) start passes = Pool.runPasses start none passes pool := by
  have still : { pool with quit := false } = pool := by rw [← held.solo.going]
  rw [Pool.run, still]
  rfl

theorem Requested.onlyConnects (held : Requested timeoutMs requests pool) : pool.OnlyConnects :=
  fun id e live => (held.opened id e live).1

/-- The loop of a scan returns once every connect has come to an end. -/
theorem Requested.answered_iff (held : Requested timeoutMs requests pool) (start : Instant)
    (passes : List Pool.Pass) :
    (Pool.runPasses start none passes pool).1 ≠ none ↔
      passes ≠ [] ∧ ∀ i request, requests[i]? = some request →
        Pool.endingOf (i + 1) (some (request.2 + connectTimeout timeoutMs)) passes ≠ none := by
  rw [(held.solo.answer_runPasses held.onlyConnects start passes).2]
  apply and_congr_right
  intro _
  constructor
  · intro all i request listed
    obtain ⟨small, -⟩ := List.getElem?_eq_some_iff.mp listed
    obtain ⟨e, live⟩ := held.named (i + 1) (Nat.succ_pos i) small
    obtain ⟨-, -, port, now, -, listed', deadline⟩ := held.opened (i + 1) e live
    rw [Nat.add_sub_cancel, listed, Option.some.injEq] at listed'
    rw [listed', ← deadline]
    exact all (i + 1) e live
  · intro all id e live
    obtain ⟨-, -, port, now, positive, listed, deadline⟩ := held.opened id e live
    have ended := all (id - 1) (port, now) listed
    rw [deadline, ← Nat.sub_add_cancel positive]
    exact ended

/-- The calls of a scan whose loop has returned: one for each connect. -/
theorem Requested.calls_eq (held : Requested timeoutMs requests pool) {start : Instant}
    {passes : List Pool.Pass} (answered : (Pool.runPasses start none passes pool).1 ≠ none)
    (id : EventId) :
    calls id (Pool.runPasses start none passes pool).2.log =
      if id ∈ List.range' 1 requests.length then
        [((requests[id - 1]?.bind fun request =>
          Pool.endingOf id (some (request.2 + connectTimeout timeoutMs)) passes)).getD .timeout]
      else [] := by
  have alone := held.solo.calls_runPasses start passes id
  split
  · rename_i member
    rw [List.mem_range'_1] at member
    obtain ⟨e, live⟩ := held.named id (by omega) (by omega)
    obtain ⟨kind, -, port, now, positive, listed, deadline⟩ := held.opened id e live
    have ended := ((held.answered_iff start passes).mp answered).2 (id - 1) (port, now) listed
    rw [Nat.sub_add_cancel positive] at ended
    obtain ⟨status, ending⟩ := Option.ne_none_iff_exists'.mp ended
    rw [alone.1 e live kind, held.quiet id, deadline, listed, Option.bind_some, ending]
    rfl
  · rename_i other
    rw [alone.2, held.quiet id]
    intro e live
    obtain ⟨-, -, _, _, positive, listed, -⟩ := held.opened id e live
    obtain ⟨small, -⟩ := List.getElem?_eq_some_iff.mp listed
    rw [List.mem_range'_1, Nat.add_comm] at other
    exact other ⟨positive, Nat.lt_succ_of_le (Nat.le_of_pred_lt small)⟩

theorem getD_timeout_iff {status : Option EventStatus} :
    status.getD .timeout = .success ↔ status = some .success := by
  cases status with
  | none => exact iff_of_false nofun nofun
  | some status => rw [Option.getD_some, Option.some.injEq]

/-- **The reports of a scan** whose loop has returned: one for each port, each what the port
alone comes to. -/
theorem Requested.reports (held : Requested timeoutMs requests pool) (start : Instant)
    (passes : List Pool.Pass)
    (answered : (Pool.runPasses start none passes pool).1 ≠ none) :
    ((Pool.runPasses start none passes pool).2.log.filterMap
        (report (requests.map Prod.fst))).Perm
      (requests.mapIdx (reportOf timeoutMs passes)) := by
  have called : ((Pool.runPasses start none passes pool).2.log.filterMap calledOf).Perm
      ((List.range' 1 requests.length).map fun id => (id, (requests[id - 1]?.bind fun request =>
        Pool.endingOf id (some (request.2 + connectTimeout timeoutMs)) passes).getD .timeout)) := by
    apply Grouping.perm_of_valuesOf
    intro id
    rw [valuesOf_calledOf, held.calls_eq answered, Grouping.valuesOf_map List.nodup_range']
  rw [filterMap_report]
  apply (called.filterMap (lineOf _)).trans
  rw [List.filterMap_map]
  apply List.Perm.of_eq
  have numbered := filterMap_range'_getElem?
    (fun id request => reportOf timeoutMs passes (id - 1) request) requests
  refine Eq.trans ?_ (numbered.trans ?_)
  · apply List.filterMap_congr
    intro id member
    rw [List.mem_range'_1] at member
    rw [Function.comp_apply, lineOf, List.getElem?_map]
    cases requests[id - 1]? with
    | none => rfl
    | some request =>
        simp only [Option.map_some, Option.bind_some, reportOf, Nat.sub_add_cancel member.1,
          getD_timeout_iff]
  · rfl

/-! ## The scan as a whole -/

/-- The ports that a scan asks for, with the clock at each request. -/
def requestsOf (world : World) (args : ScanArgs) : List (UInt16 × Instant) :=
  args.scanned.mapIdx fun i port => (port, world.clock i)

/-- What the passes come to for each port alone. -/
def reportsOf (world : World) (args : ScanArgs) : List Line :=
  (requestsOf world args).mapIdx (reportOf args.timeoutMs world.passes)

theorem ports_requestsOf (world : World) (args : ScanArgs) :
    (requestsOf world args).map Prod.fst = args.scanned := by
  apply List.ext_getElem?
  intro i
  rw [requestsOf, List.getElem?_map, List.getElem?_mapIdx, Option.map_map]
  exact Option.map_id'

/-- Every line is of an open port or not. -/
theorem countP_add_countP (lines : List Line) :
    lines.countP Line.isOpen + lines.countP (fun line => !line.isOpen) = lines.length := by
  rw [List.length_eq_countP_add_countP Line.isOpen]
  simp only [Bool.not_eq_true, Bool.decide_eq_false]

/-- What a scan comes to, by what its loop comes to. -/
theorem scan_eq (world : World) (args : ScanArgs) (host : List Char) (addr : SocketAddr) :
    scan world args host addr =
      let loop := Pool.runPasses world.start none world.passes
        (askAll addr.ip args.timeoutMs (requestsOf world args))
      let reports := loop.2.log.filterMap (report args.scanned)
      let opened := reports.countP Line.isOpen
      let closed := reports.countP fun line => !line.isOpen
      loop.1.map fun _ => .header host args.scanned.length args.timeoutMs ::
        (reports ++ [.done host (opened + closed) args.scanned.length opened closed]) := by
  have held := requested_askAll addr.ip args.timeoutMs (requestsOf world args)
  rw [scan, ← requestsOf, held.run_eq]
  rcases Pool.runPasses world.start none world.passes
      (askAll addr.ip args.timeoutMs (requestsOf world args)) with ⟨_ | status, after⟩
  · rfl
  · rfl

/-- A scan returns once every connect has come to an end. -/
theorem scan_ne_none_iff (world : World) (args : ScanArgs) (host : List Char) (addr : SocketAddr) :
    scan world args host addr ≠ none ↔ world.passes ≠ [] ∧
      ∀ i request, (requestsOf world args)[i]? = some request →
        Pool.endingOf (i + 1) (some (request.2 + connectTimeout args.timeoutMs))
          world.passes ≠ none := by
  have held := requested_askAll addr.ip args.timeoutMs (requestsOf world args)
  rw [← held.answered_iff world.start, scan_eq]
  exact Option.map_eq_none_iff.not

/-- **A scan reports every port alone.** It returns exactly when every connect has come to
an end, and prints then, between its first line and its last, one line for each port, which
says what the port's own attempt and its own deadline came to; the last line counts them. -/
theorem scan_reports (world : World) (args : ScanArgs) (host : List Char) (addr : SocketAddr) :
    (scan world args host addr ≠ none ↔ world.passes ≠ [] ∧
        ∀ i request, (requestsOf world args)[i]? = some request →
          Pool.endingOf (i + 1) (some (request.2 + connectTimeout args.timeoutMs))
            world.passes ≠ none) ∧
      ∀ lines, scan world args host addr = some lines → ∃ reports opened closed,
        reports.Perm (reportsOf world args) ∧
        opened = (reportsOf world args).countP Line.isOpen ∧
        opened + closed = args.scanned.length ∧
        lines = .header host args.scanned.length args.timeoutMs ::
          (reports ++ [.done host args.scanned.length args.scanned.length opened closed]) := by
  refine ⟨scan_ne_none_iff world args host addr, fun lines printed => ?_⟩
  have held := requested_askAll addr.ip args.timeoutMs (requestsOf world args)
  rw [scan_eq] at printed
  obtain ⟨status, returned, rfl⟩ := Option.map_eq_some_iff.mp printed
  have perm := held.reports world.start world.passes
    (Option.ne_none_iff_exists'.mpr ⟨status, returned⟩)
  rw [ports_requestsOf] at perm
  have all : (reportsOf world args).length = args.scanned.length := by
    rw [reportsOf, requestsOf, List.length_mapIdx, List.length_mapIdx]
  have total := (countP_add_countP _).trans (perm.length_eq.trans all)
  refine ⟨_, _, _, perm, perm.countP_eq _, total, ?_⟩
  rw [total]

/-- The failures that reach the loop are those of the threads that connect, and reach it
after the turns of the thread. -/
def FailuresTimed (timeoutMs : Int) (requests : List (UInt16 × Instant))
    (passes : List Pool.Pass) : Prop :=
  ∀ pass ∈ passes, ∀ i request, requests[i]? = some request →
    pass.arrivals.lookup (i + 1) = some (.error ()) → ∃ turns error,
      connectBounded (request.2 + connectTimeout timeoutMs) none turns = some (.error error) ∧
        ∀ turn ∈ turns, turn.now ≤ pass.now

/-- A pass has reached the deadline of a request. -/
def Reached (timeoutMs : Int) (passes : List Pool.Pass) (request : UInt16 × Instant) : Prop :=
  ∃ pass ∈ passes, request.2 + connectTimeout timeoutMs ≤ pass.now

instance (timeoutMs : Int) (passes : List Pool.Pass) (request : UInt16 × Instant) :
    Decidable (Reached timeoutMs passes request) :=
  inferInstanceAs (Decidable (∃ pass ∈ passes, _))

/-- A port whose deadline no pass has reached is open, once its attempt has come to an end. -/
theorem reportOf_of_unreached {passes : List Pool.Pass} {i : Nat} {request : UInt16 × Instant}
    (timed : FailuresTimed timeoutMs requests passes) (listed : requests[i]? = some request)
    (unreached : ¬ Reached timeoutMs passes request)
    (ended : Pool.endingOf (i + 1) (some (request.2 + connectTimeout timeoutMs)) passes ≠ none) :
    reportOf timeoutMs passes i request = .port request.1 true := by
  have early : ∀ pass ∈ passes, ¬ request.2 + connectTimeout timeoutMs ≤ pass.now :=
    fun pass made reached => unreached ⟨pass, made, reached⟩
  obtain ⟨status, ending⟩ := Option.ne_none_iff_exists'.mp ended
  obtain ⟨pass, made, given⟩ := List.exists_of_findSome?_eq_some ending
  have success : status = .success := by
    rw [Pool.Pass.ending] at given
    cases outcome : pass.arrivals.lookup (i + 1) with
    | none =>
        rw [outcome] at given
        simp only [Option.any_some, decide_eq_true_eq, early pass made, ↓reduceIte,
          reduceCtorEq] at given
    | some outcome' =>
        rw [outcome] at given
        cases outcome' with
        | ok stream => exact (Option.some.inj given).symm
        | error error =>
            obtain ⟨turns, error, failed, before⟩ := timed pass made i request listed outcome
            obtain ⟨turn, member, late⟩ := exists_late_of_error failed
            exact absurd (late.trans (before turn member)) (early pass made)
  rw [reportOf, ending, success]
  rfl

/-- Reports of closed ports are reports of requests whose deadline has been reached. -/
theorem count_closed_le {passes : List Pool.Pass} (timed : FailuresTimed timeoutMs requests passes)
    (ended : ∀ i request, requests[i]? = some request →
      Pool.endingOf (i + 1) (some (request.2 + connectTimeout timeoutMs)) passes ≠ none)
    (port : UInt16) :
    (requests.mapIdx (reportOf timeoutMs passes)).count (.port port false) ≤
      requests.countP fun request => request.1 = port ∧ Reached timeoutMs passes request := by
  have numbered : requests = requests.zipIdx.map Prod.fst := (List.zipIdx_map_fst 0 requests).symm
  rw [List.mapIdx_eq_zipIdx_map, List.count, List.countP_map]
  conv_rhs => rw [numbered, List.countP_map]
  apply List.countP_mono_left
  rintro ⟨request, i⟩ member closed
  have listed : requests[i]? = some request := List.mk_mem_zipIdx_iff_getElem?.mp member
  have same : reportOf timeoutMs passes i request = .port port false := beq_iff_eq.mp closed
  refine decide_eq_true ⟨(Line.port.inj same).1, ?_⟩
  by_contra unreached
  rw [reportOf_of_unreached timed listed unreached (ended i request listed)] at same
  cases (Line.port.inj same).2

/-- **Closed ports take the whole timeout.** A request whose deadline no pass has reached is
reported as open, and of the lines that a scan prints as many say of a port that it is closed
as there are requests of the port whose deadline has been reached, at most: a refusal is never
reported before the deadline. -/
theorem closed_takes_timeout (world : World) (args : ScanArgs) (host : List Char)
    (addr : SocketAddr) {lines : List Line}
    (timed : FailuresTimed args.timeoutMs (requestsOf world args) world.passes)
    (printed : scan world args host addr = some lines) :
    (∀ (i : Nat) (request : UInt16 × Instant), (requestsOf world args)[i]? = some request →
        ¬ Reached args.timeoutMs world.passes request →
          (reportsOf world args)[i]? = some (Line.port request.1 true)) ∧
      ∀ port, lines.count (Line.port port false) ≤
        (requestsOf world args).countP fun request =>
          request.1 = port ∧ Reached args.timeoutMs world.passes request := by
  obtain ⟨returns, report⟩ := scan_reports world args host addr
  obtain ⟨-, ended⟩ := returns.mp (by rw [printed]; exact Option.some_ne_none lines)
  obtain ⟨reports, opened, closed, perm, -, -, rfl⟩ := report lines printed
  constructor
  · intro i request listed unreached
    rw [reportsOf, List.getElem?_mapIdx, listed, Option.map_some,
      reportOf_of_unreached timed listed unreached (ended i request listed)]
  · intro port
    have same := perm.count_eq (Line.port port false)
    rw [List.count_cons_of_ne (by intro other; cases other), List.count_append,
      List.count_singleton, beq_false_of_ne (by intro other; cases other), same]
    exact count_closed_le timed ended port

/-! A scan of two ports, the first of which refuses up to its deadline. -/

def refusingWorld : World where
  resolve _ := [Pool.localhost 0]
  clock i := millis 8 * i
  start := 0
  passes :=
    [{ Pool.idleAt (millis 10) with arrivals := [(1, .error ()), (2, .ok none)] }]

def refusedArgs : ScanArgs := ⟨some ['h'], [80, 81], 10⟩

theorem closed_takes_timeout_refused :
    ∃ lines, scan refusingWorld refusedArgs ['h'] (Pool.localhost 0) = some lines ∧
      lines.count (Line.port 80 false) = 1 ∧
      (∀ (i : Nat) (request : UInt16 × Instant),
        (requestsOf refusingWorld refusedArgs)[i]? = some request →
          ¬ Reached 10 refusingWorld.passes request →
            (reportsOf refusingWorld refusedArgs)[i]? = some (Line.port request.1 true)) ∧
      ∀ port, lines.count (Line.port port false) ≤
        (requestsOf refusingWorld refusedArgs).countP fun request =>
          request.1 = port ∧ Reached 10 refusingWorld.passes request := by
  have timed : FailuresTimed 10 (requestsOf refusingWorld refusedArgs) refusingWorld.passes := by
    intro pass made i request listed failed
    obtain rfl := List.mem_singleton.mp made
    rcases i with _ | _ | i
    · cases listed
      -- One attempt is refused, and the next turn finds that the deadline has come.
      refine ⟨[⟨0, 0, .error (.os 111)⟩, ⟨millis 10, millis 10, .error (.os 111)⟩], _,
        (connectBounded_of_error (by decide) rfl).trans (connectBounded_of_late (by decide)), ?_⟩
      intro turn member
      rcases List.mem_cons.mp member with rfl | member
      · exact Nat.zero_le _
      · obtain rfl := List.mem_singleton.mp member
        exact le_rfl
    · cases failed
    · cases listed
  have printed : scan refusingWorld refusedArgs ['h'] (Pool.localhost 0) =
      some [.header ['h'] 2 10, .port 80 false, .port 81 true, .done ['h'] 2 2 1 1] := by
    decide +kernel
  exact ⟨_, printed, by decide, closed_takes_timeout refusingWorld refusedArgs ['h']
    (Pool.localhost 0) timed printed⟩

end Wnr.Scan
