import Yar.Tty

/-!
# cmd.c

Output of a command, start and stop of its process, and its two event handlers that do not
need the command table. A `-1` for `epollfd` is `epoll = false`.
-/

namespace Yar

open Program

variable (sys : Sys)

/-- `CMD_BUFSIZE` -/
abbrev cmdbufSize : Nat := 4096

def cmdbufNtoI (n : Nat) : Nat := n % cmdbufSize

/-- `cmdWriteChar`; the caller turns any count but 1 into `NYI`. -/
def cmdWriteChar (id : CmdId) (c : Byte) : Act Int := ttyWriteChar sys (.cmd id) c (some id)

/-! ## Output of a command -/

/-- The match of the output against the ready string. -/
def cmdttyMatchReady (id : CmdId) (c : Byte) : Act Unit := do
  let w ← get
  let g := w.gbls
  let this := w.heap id
  when (g.readystrlen ≠ 0 ∧ this.readycnt < g.readystrlen) <|
    if (g.readystr.getD [])[this.readycnt]? = some c then do
      updCmd id fun this => { this with readycnt := this.readycnt + 1 }
      when (this.readycnt + 1 = g.readystrlen) do
        updGbls fun g => { g with cmdsreadycnt := g.cmdsreadycnt + 1 }
        -- the sum is compared as an `unsigned`
        assert (0 ≤ g.cmdsreadycnt + 1 ∧ g.cmdsreadycnt + 1 ≤ g.cmds.length)
    else updCmd id fun this => { this with readycnt := 0 }

/-- `buf[i] = c; bufn++` -/
def cmdttyStore (id : CmdId) (c : Byte) : Act Unit := do
  updCmd id fun this => { this with buf := Function.update this.buf (cmdbufNtoI this.bufn) c }
  assert (((← get).heap id).bufn + 1 < 2 ^ 64)
  updCmd id fun this => { this with bufn := this.bufn + 1 }

/-- `n` bytes of the buffer from `start` on. -/
def bufSlice (buf : Nat → Byte) (start n : Nat) : CStr := (List.range n).map fun k => buf (start + k)

/-- One `ttyWriteBuf` to the broadcast tty with the assertion that it takes everything. -/
def bcstWriteAll (buf : CStr) : Act Unit := do
  let written ← ttyWriteBuf sys .bcst buf none
  assert (written = buf.length)

/-- The bytes of the line that ends at `buf[i]`, or the last `cmdbufSize` of them. -/
def cmdttyFlushBuf (id : CmdId) (i : Nat) : Act Unit := do
  let this := (← get).heap id
  if this.bufof = 0 then do
    let start := cmdbufNtoI this.bufstart
    if start ≤ i then bcstWriteAll sys (bufSlice this.buf start (i - start + 1))
    else do
      assert (1 ≤ cmdbufSize - start)
      bcstWriteAll sys (bufSlice this.buf start (cmdbufSize - start))
      bcstWriteAll sys (bufSlice this.buf 0 (i + 1))
  else do
    when (i + 1 < cmdbufSize)
      (bcstWriteAll sys (bufSlice this.buf (i + 1) (cmdbufSize - (i + 1))))
    bcstWriteAll sys (bufSlice this.buf 0 (i + 1))
    updCmd id fun this => { this with bufof := 0 }

/-- The broadcast of a complete line whose newline is at `buf[i]`. -/
def cmdttyFlushLine (id : CmdId) (i : Nat) : Act Unit := do
  let w ← get
  let this := w.heap id
  when (w.gbls.prefixbcst = true ∧ this.bcstprefix.length > 0) (bcstWriteAll sys this.bcstprefix)
  cmdttyFlushBuf sys id i
  updCmd id fun this => { this with bufstart := this.bufn }

/-- The test for a line that has just filled the buffer once more. -/
def cmdttyCountOverflow (id : CmdId) : Act Unit := do
  let this := (← get).heap id
  when (cmdbufNtoI this.bufn = cmdbufNtoI this.bufstart) do
    require .ub (this.bufof + 1 < 2 ^ 31)
    updCmd id fun this => { this with bufof := this.bufof + 1 }

/-- What is sent to the broadcast tty for the byte just stored at `buf[i]`. -/
def cmdttyBroadcast (id : CmdId) (i : Nat) (c : Byte) : Act Unit := do
  let g := (← get).gbls
  when (g.bcstflg = true) <|
    if g.linebufferbcst = false then bcstWriteAll sys [c]
    else do
      cmdttyCountOverflow id
      when (c = newline) (cmdttyFlushLine sys id i)

/-- The number returned is that of the read: positive exactly when a byte was handled. -/
def cmdttyProcessOutput (id : CmdId) (rd : Read) : Act Int := do
  let (n, c) ← ttyReadChar sys (.cmd id) none (.fin 0) rd
  if n = 0 then throw .abort
  else if n = 1 then do
    let w ← get
    note (.output id (w.heap id).name c w.gbls.prefixbcst)
    cmdttyMatchReady id c
    let i := cmdbufNtoI ((← get).heap id).bufn
    cmdttyStore id c
    let written ← ttyWriteChar sys (.clt id) c none
    assert (written = 1)
    cmdttyBroadcast sys id i c
    return n
  else do
    -- `errno` is `EAGAIN` unless the read failed for good
    assert (rd ≠ .fail ∧ ((← get).ttys (.cmd id)).dfd ≠ none)
    return n

/-- `while (cmdttyProcessOutput(this, 0) > 0);` reads what is queued and then sees `EAGAIN`. -/
def cmdttyDrain (id : CmdId) : Act Unit := do
  let w ← get
  (List.range ((w.kern.ports (.cmd id)).domq.length + 1)).forM fun _ =>
    discard (cmdttyProcessOutput sys id .ready)

/-! ## Start and stop -/

/-- `cmdRegisterProcessEvents` -/
def cmdRegisterProcessEvents (id : CmdId) (pidfd : Fd) : Act Bool :=
  epollAdd sys pidfd (.pidfd id pidfd)

/-- A failing registration goes unnoticed. -/
def cmdStart (id : CmdId) (startdelay : Double) : Act Bool := do
  let w ← get
  assert ((w.ttys (.cmd id)).dfd ≠ none ∧ (w.ttys (.cmd id)).sfd ≠ none)
  if cmdIsRunning (w.heap id) then return false
  else do
    let (cpid, pidfd) ← fork sys id startdelay
    updCmd id fun this => { this with pidfd := some pidfd, pid := some cpid, readycnt := 0 }
    discard (cmdRegisterProcessEvents sys id pidfd)
    return true

def decCmdsReadyCnt : Act Unit :=
  updGbls fun g => if g.readystrlen ≠ 0 then { g with cmdsreadycnt := g.cmdsreadycnt - 1 } else g

/-- The reset of the ready state, in `cmdPidEvent` and `cmdStop` alike. -/
def cmdResetReady (id : CmdId) : Act Unit := do
  let w ← get
  when (cmdIsReady w.gbls (w.heap id) = true) do
    updCmd id fun this => { this with readycnt := 0 }
    decCmdsReadyCnt
    assert (0 ≤ (← get).gbls.cmdsreadycnt)

/-- A character of the stop string. The sleep after it only lets the clock run on. -/
def cmdStopChar (id : CmdId) (c : Byte) : Act Unit := do
  let n ← cmdWriteChar sys id c
  assert (n = 1)

def cmdSendStopstr (id : CmdId) : Act Unit := do
  let w ← get
  match (w.heap id).stopstr <|> w.gbls.stopstr with
  | some cptr => (newline :: cptr).forM (cmdStopChar sys id)
  | none => pure ()

/-- The checks that are skipped when the stop is forced. -/
def cmdStopRefused (id : CmdId) (force : Bool) : Act Bool := do
  if force then return false
  else if !(← ttyIdle (.clt id)) then return true
  else return !(← ttyIdle .bcst)

/-- The end of `cmdStop`, after the stop string. -/
def cmdTerminate (id : CmdId) (epoll : Bool) : Act Unit := do
  cmdResetReady id
  let this := (← get).heap id
  when (epoll = true) (epollDel this.pidfd)
  killAndPoll sys this.pid this.pidfd
  let es ← waitid this.pidfd
  close this.pidfd
  updCmd id fun this => { this with exitstatus := es, pidfd := none, pid := none }

/-- `cmdStop` from the point where the decision to stop has been taken. -/
def cmdKill (id : CmdId) (epoll : Bool) : Act Unit := do
  cmdSendStopstr sys id
  cmdTerminate sys id epoll

def cmdStop (id : CmdId) (epoll force : Bool) : Act Bool := do
  if cmdIsRunning ((← get).heap id) = false then return false
  else if ← cmdStopRefused id force then return false
  else do
    cmdKill sys id epoll
    return true

/-! ## Handlers -/

/-- A byte from the client tty or the broadcast tty is handed to the command. -/
def cmdRelay (id : CmdId) (c : Byte) : Act Unit := do
  let opens := ((← get).ttys (.cmd id)).opens
  let n ← cmdWriteChar sys id c
  assert (n = 1)
  let this := (← get).heap id
  note (.relay id c (if opens ≠ 0 then some this.lastwrite else none))

def cmdCmdttyEvent (id : CmdId) (rd : Read) : Act Unit :=
  discard (cmdttyProcessOutput sys id rd)

def cmdCltttyEvent (id : CmdId) (rd : Read) : Act Unit := do
  let w ← get
  let this := w.heap id
  when (cmdIsReady w.gbls this = true) do
    let (n, c) ← ttyReadChar sys (.clt id) (some this.lastwrite) this.delay rd
    when (n ≠ 0) do
      cmdRelay sys id c
      discard (cmdStop sys id true false)

def cmdCltttyNotify (id : CmdId) (mask : Mask) : Act Unit :=
  match mask with
  | .IN_OPEN => discard (cmdStart sys id (.fin 0))
  | .IN_CLOSE_WRITE => discard (cmdStop sys id true false)
  | .IN_CLOSE_NOWRITE => discard (cmdStop sys id true false)

/-! ## Creation and cleanup -/

/-- `PATH_MAX`, terminator included. -/
abbrev pathMax : Nat := 4096

/-- `snprintf(tmp, PATH_MAX, "%s<suffix>", link)` -/
def snprintfPath (link suffix : CStr) : CStr := (link ++ suffix).take (pathMax - 1)

/-- `cwdPrefix` -/
def cwdPrefix (g : Globals) (path : Option CStr) : CStr :=
  match path with
  | some path => (g.cwd ++ bytes "/" ++ path).take (pathMax - 1)
  | none => g.cwd

/-- The `ttyInit` of a client or broadcast tty, with the two extra links next to its link. -/
def ttyInitLinked (r : TtyRef) (ttylink : CStr) : Act Unit := do
  let w ← get
  ttyInit r (some ttylink) (some (snprintfPath ttylink (bytes ".mon"))) (w.ttys .mon).link
    (some (snprintfPath ttylink (bytes ".fs"))) w.gbls.fsmntpt

def cmdInit (id : CmdId) (name cmdline : CStr) (delay : Double) (ttylink log : Option CStr) :
    Act Unit := do
  assert (log = none)
  let g := (← get).gbls
  updCmd id fun _ =>
    { name := name
      bcstprefix := name ++ bytes ": "
      cmdline := cmdline
      delay := delay
      exitstatus := -1
      restart := true
      deleteonexit := g.cmddelonexit }
  ttyInit (.cmd id) none none none none none
  ttyInitLinked (.clt id) (ttylink.getD (cwdPrefix g (some name)))

def cmdCreate (id : CmdId) : Act Bool := do
  if ← ttyCreate sys (.clt id) then ttyCreate sys (.cmd id)
  else return false

def cmdRegisterttyEvents (id : CmdId) : Act Unit := do
  let clt ← ttyRegisterEvents sys (.clt id)
  assert (clt = true)
  let cmd ← ttyRegisterEvents sys (.cmd id)
  assert (cmd = true)

/-- The fields `cmdCleanup` resets. -/
def cmdClear (this : Cmd) : Cmd :=
  { this with
    pidfd := none, pid := none, exitstatus := -1, name := [], cmdline := []
    bcstprefix := [], bufn := 0, bufof := 0, restartcnt := 0, restart := false
    deleteonexit := false, delay := .fin 0, lastwrite := 0 }

def cmdCleanup (id : CmdId) : Act Unit := do
  discard (cmdStop sys id false true)
  ttyCleanup sys (.cmd id)
  ttyCleanup sys (.clt id)
  updCmd id cmdClear

end Yar
