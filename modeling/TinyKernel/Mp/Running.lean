/-
  The kernel with the programs that run on it, down to the registers.

  A program at EL0 executes: it changes its registers, loads and stores through TTBR0, and makes
  system calls with `svc`; and the timer interrupts it.  `runningMachine` puts together what the
  other modules model one by one: `loweraa64_svc` with `exceptions_handle_syscall` and the functions
  it calls, and for a timer interrupt the registers (`loweraa64_fiq`) and the kernel around the ring
  (`internal_handler`).  Interrupts are taken at EL0, system calls run to their end, and a spawn finds
  the memory it asks for.

  Of what a program can see (`Process`), x1 and the flags are missing: a context switch keeps neither.
  `processMachine` is what a program may expect of a system that it has for itself.
-/
import TinyKernel.Exceptions.GetCall
import TinyKernel.Exceptions.SvcEntry
import TinyKernel.Lib.Parties
import TinyKernel.Mp.Isolation

namespace TinyKernel

/-! ## The source -/

/-- The volume, for the functions that only use what was loaded. -/
def FatVolume.volume (vol : FatVolume) : Volume := ⟨vol.disk, vol.handle⟩

/-- The kernel, the data of the inodes, the processor, and the variables of the interrupt path. -/
structure Running where
  kernel : SystemState
  /-- What the inode at an address stands for. -/
  files : Nat → OpenFile
  cpu : Cpu
  /-- The memory that holds the kernel stack. -/
  stack : Mem
  handlers : Nat → Option Handler
  contextSwitchX30 : Nat
  timerReloads : Nat

/-- What a system call finds outside of the registers: the string that x0 points to, and memory that
    is not initialised (`c` is the local variable of `exceptions_internal_get`). -/
structure SvcInput where
  garbage : Garbage
  filename : List Byte
  scratch : Mem
  c : Byte

/-- The functions that `exceptions_handle_syscall` calls.  What is logged is not part of the state. -/
def performSyscall (vol : FatVolume) (input : SvcInput) (rounds : Nat) :
    Syscall → Word → SystemState × (Nat → OpenFile) →
      Except Fault (Option Word × SystemState × (Nat → OpenFile))
  | .terminate, _, (st, files) => .ok (none, { st with table := jobTerminate st.table }, files)
  | .log, _, (st, files) => .ok (none, st, files)
  | .open, _, (st, files) => do
    let (inode, fatInode, st) ← st.fatfsOpen vol.volume input.garbage
      fun i => (input.filename ++ [0]).getD i 0
    let (fd, job) ← jobAddFile rounds (st.table.jobs st.table.currentJob) inode
    return (some (BitVec.ofInt 64 fd),
      { st with table := st.table.setJob st.table.currentJob fun _ => job },
      Function.update files inode (.fat fatInode))
  | .get, x0, (st, files) => do
    let (x0, files) ← exceptionsInternalGet rounds vol input.scratch
      (st.table.jobs st.table.currentJob) files x0 input.c
    return (some x0, st, files)
  | .spawn, _, (st, files) => do
    let st ← exceptionsInternalSpawn vol.volume input.garbage rounds st input.filename
    return (none, st, files)

namespace Running

/-- The part that the interrupt path works on. -/
def interrupts (r : Running) : Kernel where
  cpu := r.cpu
  stack := r.stack
  table := r.kernel.table
  pagingManager := r.kernel.currentPagingManager
  contextSwitchX30 := r.contextSwitchX30
  handlers := r.handlers
  timerReloads := r.timerReloads

/-- The part that system calls work on. -/
def entered (r : Running) : Entered (SystemState × (Nat → OpenFile)) :=
  ⟨r.cpu, r.stack, r.kernel, r.files⟩

/-- The kernel reads the string at `x0` through the current address space. -/
def Passes (r : Running) (filename : List Byte) : Prop :=
  0 ∉ filename ∧ ∀ i, i ≤ filename.length →
    (translate r.kernel.mem r.kernel.ttbr0 ((r.cpu.x 0).toNat + i)).map (fun tr => r.kernel.mem tr.pa)
      = some ((filename ++ [0]).getD i 0)

end Running

/-! ## Runs -/

inductive RunningEvent
  /-- The end of `usermode`, with the processor when it has executed `eret`. -/
  | usermode (garbage : Garbage) (filename : Mem) (name : Nat) (cpu : Cpu)
  /-- The program executes. -/
  | run (x : Regs) (pc sp pstate : Word)
  /-- The program stores a byte. -/
  | store (va : Nat) (c : Byte)
  /-- A synchronous exception with this syndrome, from EL0. -/
  | svc (input : SvcInput) (esr : Word) (res : BitVec 32) (left : Leftover)
  /-- A timer interrupt, at EL0. -/
  | timer

/-- The system call that an exception makes. -/
def svcCall (esr : Word) : Option Syscall := syscallOf (esr.setWidth 16)

/-- One event. -/
def RunningStep (vol : FatVolume) (r : Running) : RunningEvent → Running → Prop
  | .usermode garbage filename name cpu, r' =>
      SystemStep vol.volume r.kernel (.usermode garbage filename name) r'.kernel ∧
      r'.files = r.files ∧
      -- `scheduling_register_routine`
      r'.handlers = Function.update r.handlers 30 (some .internalHandler) ∧
      -- `sysutils_jump_eret_usermode`; the kernel's stack has room
      r'.cpu = cpu ∧ cpu.pc = (r'.kernel.table.jobs r'.kernel.table.currentJob).pc ∧
      cpu.spEl0 = (r'.kernel.table.jobs r'.kernel.table.currentJob).sp ∧ 256 ≤ cpu.spEl1
  | .run x pc sp pstate, r' => r.kernel.table.currentJob ≠ 0 ∧
      r' = { r with cpu := { r.cpu with x := x, pc := pc, spEl0 := sp, pstate := pstate } }
  | .store va c, r' => UserStep vol.volume r.kernel (.store va c) r'.kernel ∧
      r' = { r with kernel := r'.kernel }
  | .svc input esr res left, r' => r.kernel.table.currentJob ≠ 0 ∧
      (svcCall esr = some .open ∨ svcCall esr = some .spawn → r.Passes input.filename) ∧
      Returns (fun rounds => loweraa64Svc (performSyscall vol input rounds) left esr res r.entered)
        (.returns r'.entered) ∧
      r'.kernel.refusals = r.kernel.refusals ∧
      r'.handlers = r.handlers ∧ r'.contextSwitchX30 = r.contextSwitchX30 ∧
      r'.timerReloads = r.timerReloads
  | .timer, r' => SystemStep vol.volume r.kernel (.timer r.cpu) r'.kernel ∧
      Returns (fun rounds => loweraa64Fiq rounds 30 r.interrupts) r'.interrupts ∧
      r'.files = r.files

/-- From the end of the boot on. -/
def runningMachine (vol : FatVolume) : Machine Running RunningEvent where
  start := fun r => SystemBooted r.kernel
  step := RunningStep vol

/-! ## What a program is -/

/-- The registers that a program has for itself: all but x1 and the flags. -/
def Ctx.known (c : Ctx) : Ctx := { c with x := Function.update c.x 1 0 }

/-- A program as it sees itself: registers, memory, and open files by descriptor. -/
structure Process where
  ctx : Ctx
  memory : Nat → Option Byte
  files : Int → Option OpenFile

/-- What `open` finds for a name: the data of a fresh inode. -/
def openedFile (vol : FatVolume) (garbage : Garbage) (filename : List Byte) :
    Except Fault OpenFile := do
  let (name, ext) ← fatfsSplit (fun i => (filename ++ [0]).getD i 0) 0
  let index := fatGetEntryByFile vol.handle garbage.stackName garbage.stackExt name ext
  return .fat (fatfsInode (index.map vol.handle.entryAt) garbage.inode)

/-- What the local variable `c` holds when the next byte has been asked for. -/
def readByte (rounds : Nat) (vol : FatVolume) (scratch : Mem) (c : Byte) (file : OpenFile) :
    Except Fault (Byte × OpenFile) := do
  let (read, file) ← fsInodeGet rounds vol scratch file
  return (read.getD c, file)

/-- A new descriptor is the lowest one that is free; -1 says that there is none. -/
def NewDescriptor (files : Int → Option OpenFile) (fd : Int) : Prop :=
  (fd = -1 ∧ ∀ i : Nat, i < jobMaxFiles → files i ≠ none) ∨
  ∃ n : Nat, n < jobMaxFiles ∧ fd = n ∧ files n = none ∧ ∀ i : Nat, i < n → files i ≠ none

inductive ProcessAction
  /-- It executes, and has these registers then. -/
  | run (ctx : Ctx)
  | store (va : Nat) (c : Byte)
  | open (garbage : Garbage) (filename : List Byte) (fd : Int)
  | get (scratch : Mem) (c : Byte)

namespace Process

/-- A system call returns with the answer in x0. -/
def answered (p : Process) (answer : Word) : Process :=
  { p with ctx := { p.ctx with x := Function.update p.ctx.x 0 answer } }

/-- The descriptor in x0. -/
def fd (p : Process) : Int := fdOf (p.ctx.x 0)

end Process

/-- One action of a program that is alone. -/
def ProcessStep (vol : FatVolume) (p : Process) : ProcessAction → Process → Prop
  | .run ctx, p' => p' = { p with ctx := ctx }
  | .store va c, p' => (p.memory va).isSome ∧
      p' = { p with memory := Function.update p.memory va (some c) }
  | .open garbage filename fd, p' => NewDescriptor p.files fd ∧
      ∃ file, openedFile vol garbage filename = .ok file ∧
        p' = { p.answered (BitVec.ofInt 64 fd) with
          files := if fd = -1 then p.files else Function.update p.files fd (some file) }
  | .get scratch c, p' => match p.files p.fd with
      | none => p' = p.answered (-1)
      | some file => ∃ byte file',
          Returns (fun rounds => readByte rounds vol scratch c file) (byte, file') ∧
          p' = { p.answered (byte.setWidth 64) with
            files := Function.update p.files p.fd (some file') }

/-- A program starts without open files. -/
def processMachine (vol : FatVolume) : Machine Process ProcessAction where
  start := fun p => ∀ fd, p.files fd = none
  step := ProcessStep vol

/-! ## The programs of the ring -/

/-- The registers in a job structure. -/
def Job.ctx (j : Job) : Ctx := ⟨fun r => j.x (Fin.ofNat 31 (30 - frameIdx r)), j.pc, j.sp⟩

namespace Running

/-- The registers of the job at `q`: in the processor when it is current. -/
def ctxOf (r : Running) (q : Nat) : Ctx :=
  (if q = r.kernel.table.currentJob then r.cpu.ctx else (r.kernel.table.jobs q).ctx).known

/-- The open files of the job at `q`. -/
def filesOf (r : Running) (q : Nat) (fd : Int) : Option OpenFile :=
  let inode := jobGetFile (r.kernel.table.jobs q) fd
  if inode = 0 then none else some (r.files inode)

def process (r : Running) (q : Nat) : Process :=
  ⟨r.ctxOf q, r.kernel.userLoad q, r.filesOf q⟩

def processes (r : Running) : Parties Nat Process where
  live := r.kernel.InRing
  state := r.process

end Running

/-- What an event is to the programs. -/
def processEvent (r : Running) : RunningEvent → Running → PartiesEvent Nat ProcessAction
  | .usermode .., _ => .start
  | .run .., r' => .act r.kernel.table.currentJob (.run r'.cpu.ctx.known)
  | .store va c, _ => .act r.kernel.table.currentJob (.store va c)
  | .svc input esr .., r' => match svcCall esr with
    | some .open =>
      .act r.kernel.table.currentJob (.open input.garbage input.filename (fdOf (r'.cpu.x 0)))
    | some .get => .act r.kernel.table.currentJob (.get input.scratch input.c)
    | some .spawn => .start
    | some .terminate | some .log | none => .idle
  | .timer, _ => .stop

end TinyKernel
