/-
**Arguments of a program that is started by fork and exec.**

A process that forks and execs at once does not get a copy of its parent: the parent packs the argument
vector and the environment, the kernel decodes them into JavaScript strings and an object, a fresh worker
builds the command line of a new Blink from them, and that Blink makes the vector of the guest program out
of its own.  This module follows the two lists from the guest that calls `execve` to the guest that is
started, and says for which lists they arrive unchanged.

Two steps lose what they carry for ordinary programs: the worker puts the path in the place of `argv[0]`,
and the start code of the engine calls `main` without having set `environ`, so that the guest program has
no environment at all.

Main definitions:

* `ExecArguments.pack`, `ExecArguments.forkExecSpawn` — what the parent sends and what the kernel makes of it;
* `ExecArguments.forkExec` — what the imports `args_get` and `environ_get` of the new worker hand out;
* `ExecArguments.start`, `ExecArguments.main` — the start code, the options of Blink and the loader;
* `ExecArguments.Passes` — the program is started with the vector and the environment it was given;
* `ExecArguments.Kept` — the condition on the path and the two lists.

Main results:

* `ExecArguments.passes_iff` — **the lists arrive if and only if the condition holds**;
* `ExecArguments.environ_forkExec_iff` — when `environ_get` would hand out the environment as it was given.
-/

import AtuaComputer.JsObject
import AtuaComputer.Utf8
import Mathlib.Algebra.Order.BigOperators.Group.List
import Mathlib.Algebra.Order.Ring.Nat
import Mathlib.Data.List.TakeWhile

set_option relaxedAutoImplicit false
set_option autoImplicit false

namespace ExecArguments

/-- A string of JavaScript. -/
abbrev Text := List Char

abbrev Bytes := List UInt8

/-- A string of C: it ends at its first zero. -/
abbrev CString := {s : Bytes // 0 ∉ s}

/-- What C reads from the place where a byte string and a zero were written. -/
def cString (bs : Bytes) : Bytes := bs.takeWhile (· ≠ 0)

/-! ### The parent and the kernel -/

/-- `SysExecve`: one string after the other, each with its zero. -/
def pack (ss : List CString) : Bytes := ss.flatMap fun s => s.1 ++ [0]

/-- The bytes between the zeros. -/
def unpackFrom (s : Bytes) : Bytes → List Bytes
  | [] => []
  | b :: bs => if b = 0 then s :: unpackFrom [] bs else unpackFrom (s ++ [b]) bs

def unpack (bs : Bytes) : List Bytes := unpackFrom [] bs

/-- The name and the value of an entry; one without an equals sign is dropped. -/
def splitEntry (entry : Text) : Option (JsObject.Key × Text) :=
  if '=' ∈ entry then some (entry.takeWhile (· ≠ '='), (entry.dropWhile (· ≠ '=')).tail) else none

/-- The request for a new worker. -/
structure ForkRequest where
  path : Text
  argv : List Text
  env : JsMap JsObject.Key Text

/-- `SYS_FORK_EXEC_SPAWN` -/
def forkExecSpawn (path argvPacked envpPacked : Bytes) : ForkRequest where
  path := Utf8.decode path
  argv := (unpack argvPacked).map Utf8.decode
  env := JsObject.fromEntries ((unpack envpPacked).filterMap fun entry => splitEntry (Utf8.decode entry))

/-! ### The worker -/

/-- What the imports of the engine hand out: the strings that `args_get` and `environ_get` write, each with
a zero behind it. -/
structure Imports where
  args : List Bytes
  environ : List Bytes

/-- `createImports` -/
def createImports (args : List Text) (env : JsMap JsObject.Key Text) : Imports where
  args := args.map Utf8.encode
  environ := (JsObject.entries env).map fun e => Utf8.encode (e.1 ++ '=' :: e.2)

/-- `forkExec`: the first argument is replaced by the path. -/
def forkExec (r : ForkRequest) : Imports :=
  createImports (['b', 'l', 'i', 'n', 'k'] :: r.path :: r.argv.drop 1) r.env

/-! ### Options of Blink -/

/-- How one word of options ends: it is used up, it needs the next word as an argument, or Blink ends. -/
inductive Word where
  | done (zero : Bool)
  | argument (zero : Bool)
  | exits
  deriving DecidableEq

/-- The letters of a word of options, after `OPTS`. -/
def getWord (zero : Bool) : Bytes → Word
  | [] => .done zero
  | c :: cs =>
    if c ∈ Utf8.encode ['j', 'e', 'm', 'Z', 's'] then getWord zero cs
    else if c ∈ Utf8.encode ['0'] then getWord true cs
    else if c ∈ Utf8.encode ['L', 'C', 'F'] then if cs = [] then .argument zero else .done zero
    else .exits

/-- `GetOpts`: whether `-0` was given, and the words from `optind_` on. -/
def getOpts (zero : Bool) : List Bytes → Option (Bool × List Bytes)
  | [] => some (zero, [])
  | w :: ws =>
    match w with
    | 0x2D :: c :: cs =>
      if c = 0x2D ∧ cs = [] then some (zero, ws)
      else
        match getWord zero (c :: cs), ws with
        | .exits, _ => none
        | .done z, ws => getOpts z ws
        | .argument _, [] => none
        | .argument z, _ :: ws => getOpts z ws
    | _ => some (zero, w :: ws)

/-- The size of the buffer for the path. -/
def PATH_MAX : ℕ := 4096

/-- `Commandv`: in the browser a name is taken as it is, when it fits. -/
def commandv (name : Bytes) : Option Bytes :=
  if name ≠ [] ∧ name.length + 2 ≤ PATH_MAX then some name else none

/-! ### The loader -/

/-- The files that Blink can see. -/
structure Files where
  /-- The contents of the executable file with a path. -/
  image : Bytes → Option Bytes
  /-- `IsSupportedExecutable` -/
  supported : Bytes → Bytes → Bool

/-- The path names a program that Blink can run. -/
def Files.IsProgram (fs : Files) (path : Bytes) : Prop :=
  ∃ img, fs.image path = some img ∧ fs.supported path img = true

/-- A byte that may stand in the first line of a script. -/
def Printable (c : UInt8) : Prop := 32 ≤ c ∧ c < 127 ∨ c = 10

instance (c : UInt8) : Decidable (Printable c) := inferInstanceAs (Decidable (_ ∨ _))

/-- The rest of the first line, the argument of the interpreter. -/
def shebangArg (interp s : Bytes) : Bytes → Option (Bytes × Option Bytes)
  | [] => none
  | c :: cs =>
    if ¬ Printable c then none
    else if c = 10 then some (interp, some s)
    else shebangArg interp (s ++ [c]) cs

/-- The spaces behind the interpreter. -/
def shebangSpaces (interp : Bytes) : Bytes → Option (Bytes × Option Bytes)
  | [] => none
  | c :: cs =>
    if ¬ Printable c then none
    else if c = 32 then shebangSpaces interp cs
    else if c = 10 then some (interp, none)
    else shebangArg interp [c] cs

/-- The path of the interpreter. -/
def shebangInterp (s : Bytes) : Bytes → Option (Bytes × Option Bytes)
  | [] => none
  | c :: cs =>
    if ¬ Printable c then none
    else if c = 32 then shebangSpaces s cs
    else if c = 10 then some (s, none)
    else shebangInterp (s ++ [c]) cs

/-- `HasShebang`: the interpreter and its argument, from the first 512 bytes. -/
def hasShebang (img : Bytes) : Option (Bytes × Option Bytes) :=
  match img.take 512 with
  | 0x23 :: 0x21 :: cs => if 4 ≤ (img.take 512).length then shebangInterp [] cs else none
  | _ => none

/-- What `CanEmulateData` finds. -/
inductive Emulated where
  | unsupported
  | program
  | script (prog : Bytes) (args : List Bytes)

/-- `CanEmulateImpl` for the interpreter of a script. -/
def canEmulateImpl (fs : Files) (prog : Bytes) : Bool :=
  match fs.image prog with
  | none => false
  | some img => fs.supported prog img

/-- `CanEmulateData` -/
def canEmulateData (fs : Files) (isfirst : Bool) (prog : Bytes) (args : List Bytes) (img : Bytes) : Emulated :=
  if fs.supported prog img = true then .program
  else if isfirst = true then
    match hasShebang img with
    | none => .unsupported
    | some (interp, arg) =>
      -- the script takes the place of its own name
      if canEmulateImpl fs interp = true then .script interp (interp :: arg.toList ++ prog :: args.tail)
      else .unsupported
  else .unsupported

/-- What a guest program is started with. -/
structure Loaded where
  prog : Bytes
  args : List Bytes
  vars : List Bytes

/-- `LoadProgram`, the second round. -/
def loadInterp (fs : Files) (prog : Bytes) (args vars : List Bytes) : Option Loaded :=
  match fs.image prog with
  | none => none
  | some img =>
    match canEmulateData fs false prog args img with
    | .program => some ⟨prog, args, vars⟩
    | _ => none

/-- `LoadProgram` -/
def loadProgram (fs : Files) (prog : Bytes) (args vars : List Bytes) : Option Loaded :=
  match fs.image prog with
  | none => none
  | some img =>
    match canEmulateData fs true prog args img with
    | .unsupported => none
    | .program => some ⟨prog, args, vars⟩
    | .script prog args => loadInterp fs prog args vars

/-! ### The engine -/

/-- `environ`, which no code of the engine sets: the start code calls `main` itself, and nothing calls
`environ_get`.  So `getenv` finds none of the settings of Blink either. -/
def environ : List Bytes := []

/-- `main`, with the words behind `argv[0]` -/
def main (fs : Files) (words : List Bytes) : Option Loaded :=
  match getOpts false words with
  | none => none
  | some (_, []) => none
  | some (zero, name :: ps) =>
    match commandv name with
    | none => none
    | some path => loadProgram fs path (if zero = true then ps else path :: ps) environ

/-- The arguments fit the buffers of the start code. -/
def Fits (args : List Bytes) : Prop :=
  args.length < 4096 ∧ (args.map fun a => a.length + 1).sum ≤ 8192

instance (args : List Bytes) : Decidable (Fits args) := inferInstanceAs (Decidable (_ ∧ _))

/-- `_start`; arguments that do not fit are written past the buffers, and nothing is said about what
happens then. -/
def start (fs : Files) (i : Imports) : Option Loaded :=
  if Fits i.args then main fs (i.args.map cString).tail else none

/-- `execve` after `fork`: what the program in the new process is started with. -/
def execve (fs : Files) (path : CString) (argv envp : List CString) : Option Loaded :=
  start fs (forkExec (forkExecSpawn path.1 (pack argv) (pack envp)))

/-! ### The condition -/

/-- A string that is the same after it was decoded and encoded: valid UTF-8 without a byte order mark in
front. -/
def Carried (s : Bytes) : Prop := ∃ t : Text, s = Utf8.encode t ∧ t.head? ≠ some Utf8.bom

instance (s : Bytes) : Decidable (Carried s) := decidable_of_iff _ Utf8.reencode_eq_iff

/-- A word that Blink takes for options: a minus sign that is followed by something. -/
def IsOption (w : Bytes) : Prop := w.head? = some 0x2D ∧ w ≠ [0x2D]

instance (w : Bytes) : Decidable (IsOption w) := inferInstanceAs (Decidable (_ ∧ _))

/-- When the path names a program, it is started with the vector and the environment that were given. -/
def Passes (path : CString) (argv envp : List CString) : Prop :=
  ∀ fs : Files, fs.IsProgram path.1 →
    (execve fs path argv envp).map (fun l => (l.args, l.vars)) =
      some (argv.map Subtype.val, envp.map Subtype.val)

/-- There is no environment; the vector begins with the path, and its strings are carried and fit the
buffers of the start code; the path is a name that Blink takes for a program. -/
structure Kept (path : CString) (argv envp : List CString) : Prop where
  environ : envp = []
  name : argv.head? = some path
  carried : ∀ a ∈ argv, Carried a.1
  notOption : ¬ IsOption path.1
  nonempty : path.1 ≠ []
  length : path.1.length + 2 ≤ PATH_MAX
  count : argv.length + 1 < 4096
  total : 6 + (argv.map fun a => a.1.length + 1).sum ≤ 8192

/-! ### Packing, decoding and encoding -/

theorem unpackFrom_append {s' : Bytes} (h : 0 ∉ s') (s bs : Bytes) :
    unpackFrom s (s' ++ 0 :: bs) = (s ++ s') :: unpackFrom [] bs := by
  induction s' generalizing s with
  | nil => simp [unpackFrom]
  | cons b s' ih =>
      rw [List.mem_cons, not_or] at h
      rw [List.cons_append, unpackFrom, if_neg (Ne.symm h.1), ih h.2, List.append_assoc]
      rfl

/-- **The kernel unpacks what the parent packed.** -/
theorem unpack_pack (ss : List CString) : unpack (pack ss) = ss.map Subtype.val := by
  induction ss with
  | nil => rfl
  | cons s ss ih =>
      rw [pack, List.flatMap_cons, List.append_assoc, unpack]
      show unpackFrom [] (s.1 ++ 0 :: pack ss) = _
      rw [unpackFrom_append s.2, List.nil_append, List.map_cons, ← ih]
      rfl

theorem cString_of_notMem {bs : Bytes} (h : 0 ∉ bs) : cString bs = bs :=
  List.takeWhile_eq_self_iff.2 fun b hb => by simpa using ne_of_mem_of_not_mem hb h

/-- C reads up to the first zero. -/
theorem cString_append {bs : Bytes} (h : 0 ∉ bs) (bs' : Bytes) : cString (bs ++ 0 :: bs') = bs := by
  rw [cString, List.takeWhile_append_of_pos fun b hb => by simpa using ne_of_mem_of_not_mem hb h]
  simp

/-- Only the character zero is encoded with a zero. -/
theorem zero_mem_encodeChar {c : Char} : 0 ∈ String.utf8EncodeChar c ↔ c = Char.ofNat 0 := by
  have hc := Utf8.toNat_bounds c
  have hzero : c = Char.ofNat 0 ↔ c.toNat = 0 := by
    rw [← Char.toNat_inj]
    rfl
  have hbyte : ∀ n : ℕ, (0 : UInt8) = UInt8.ofNat n ↔ n % 256 = 0 := fun n => by
    rw [← UInt8.toNat_inj, UInt8.toNat_ofNat']
    exact eq_comm
  have hval : c.val.toNat = c.toNat := rfl
  rw [hzero]
  unfold String.utf8EncodeChar
  simp only [hval]
  split
  · simp only [List.mem_singleton, hbyte]
    omega
  split
  · simp only [List.mem_cons, List.not_mem_nil, or_false, hbyte]
    omega
  split
  · simp only [List.mem_cons, List.not_mem_nil, or_false, hbyte]
    omega
  · simp only [List.mem_cons, List.not_mem_nil, or_false, hbyte]
    omega

theorem zero_mem_encode {t : Text} : 0 ∈ Utf8.encode t ↔ Char.ofNat 0 ∈ t := by
  rw [Utf8.encode, List.mem_flatMap]
  constructor
  · rintro ⟨c, hc, h⟩
    exact zero_mem_encodeChar.1 h ▸ hc
  · exact fun h => ⟨_, h, zero_mem_encodeChar.2 rfl⟩

/-- A string as the new Blink sees it. -/
def recoded (s : Bytes) : Bytes := cString (Utf8.reencode s)

/-- **A string arrives exactly when it is carried.** -/
theorem recoded_eq_iff {s : Bytes} (hs : 0 ∉ s) : recoded s = s ↔ Carried s := by
  refine ⟨fun h => ?_, fun h => ?_⟩
  · by_cases hzero : 0 ∈ Utf8.reencode s
    · -- a zero would cut the string, and what is before it has fewer characters than were decoded
      exfalso
      obtain ⟨t, t', hdec, hnot⟩ := List.eq_append_cons_of_mem (zero_mem_encode.1 hzero)
      have henc : Utf8.reencode s = Utf8.encode t ++ 0 :: Utf8.encode t' := by
        rw [Utf8.reencode, hdec, Utf8.encode_append]
        rfl
      have hcut : s = Utf8.encode t := by
        rw [← h, recoded, henc, cString_append (fun hmem => hnot (zero_mem_encode.1 hmem))]
      have hlen := (Utf8.stripBom_sublist t).length_le
      rw [← Utf8.decode_encode, ← hcut, hdec, List.length_append, List.length_cons] at hlen
      omega
    · rw [recoded, cString_of_notMem hzero] at h
      exact Utf8.reencode_eq_iff.1 h
  · rw [recoded, Utf8.reencode_eq_iff.2 h, cString_of_notMem hs]

/-! ### The words of the new Blink -/

/-- `argv[0]` of the new Blink. -/
def blink : Bytes := Utf8.encode ['b', 'l', 'i', 'n', 'k']

/-- What `args_get` hands out. -/
theorem args_forkExec (path : CString) (argv envp : List CString) :
    (forkExec (forkExecSpawn path.1 (pack argv) (pack envp))).args =
      blink :: Utf8.reencode path.1 :: argv.tail.map fun a => Utf8.reencode a.1 := by
  simp [forkExec, createImports, forkExecSpawn, unpack_pack, blink, Utf8.reencode, Function.comp_def]

/-- **The path and the arguments behind `argv[0]` are what Blink is started with.** -/
theorem execve_eq (fs : Files) (path : CString) (argv envp : List CString) :
    execve fs path argv envp =
      if Fits (blink :: Utf8.reencode path.1 :: argv.tail.map fun a => Utf8.reencode a.1) then
        main fs (recoded path.1 :: argv.tail.map fun a => recoded a.1) else none := by
  rw [execve, start, args_forkExec]
  simp [recoded, Function.comp_def]

/-! ### Options -/

/-- A first word that is not for Blink ends the options. -/
theorem getOpts_of_not_isOption {zero : Bool} {w : Bytes} {ws : List Bytes} (h : ¬ IsOption w) :
    getOpts zero (w :: ws) = some (zero, w :: ws) := by
  unfold getOpts
  split
  · exact absurd ⟨rfl, by simp⟩ h
  · rfl

/-- **Options are taken away from the front, and without one all words are left.** -/
theorem getOpts_cases {zero z : Bool} {ws rest : List Bytes} (h : getOpts zero ws = some (z, rest)) :
    z = zero ∧ rest = ws ∧ (∀ w ∈ ws.head?, ¬ IsOption w) ∨ rest.length < ws.length := by
  fun_induction getOpts zero ws with
  | case1 =>
      cases h
      exact .inl ⟨rfl, rfl, by simp⟩
  | case2 =>
      cases h
      exact .inr (Nat.lt_succ_self _)
  | case3 => cases h
  | case4 zero c cs hend z' ws hword ih =>
      rcases ih h with ⟨-, rfl, -⟩ | hlt
      · exact .inr (Nat.lt_succ_self _)
      · exact .inr (Nat.lt_succ_of_lt hlt)
  | case5 => cases h
  | case6 zero c cs hend z' w ws hword ih =>
      simp only [List.length_cons]
      rcases ih h with ⟨-, rfl, -⟩ | hlt
      · exact .inr (by omega)
      · exact .inr (by omega)
  | case7 zero w ws hw =>
      cases h
      refine .inl ⟨rfl, rfl, fun w' hw' => ?_⟩
      cases hw'
      rintro ⟨hhead, hne⟩
      cases w with
      | nil => cases hhead
      | cons b bs =>
          cases hhead
          cases bs with
          | nil => exact hne rfl
          | cons c cs => exact hw c cs rfl

/-! ### What is started -/

/-- **A guest program is what the first word that is not an option names.** -/
theorem main_eq_some {fs : Files} {words : List Bytes} {l : Loaded} (h : main fs words = some l) :
    ∃ zero name ps, getOpts false words = some (zero, name :: ps) ∧ name ≠ [] ∧ name.length + 2 ≤ PATH_MAX ∧
      loadProgram fs name (if zero = true then ps else name :: ps) environ = some l := by
  unfold main at h
  split at h
  · cases h
  · cases h
  · rename_i zero name ps hopts
    split at h
    · cases h
    · rename_i path hpath
      unfold commandv at hpath
      split at hpath
      · rename_i hfits
        cases hpath
        exact ⟨zero, _, ps, hopts, hfits.1, hfits.2, h⟩
      · cases hpath

/-- A program is loaded with the vector it is given. -/
theorem loadProgram_of_isProgram {fs : Files} {prog : Bytes} (h : fs.IsProgram prog) (args vars : List Bytes) :
    loadProgram fs prog args vars = some ⟨prog, args, vars⟩ := by
  obtain ⟨img, himg, hsup⟩ := h
  simp [loadProgram, himg, canEmulateData, hsup]

/-- A file system with one program. -/
def only (path : Bytes) : Files where
  image q := if q = path then some [0x7F, 0x45, 0x4C, 0x46] else none
  supported _ _ := true

theorem isProgram_only (path : Bytes) : (only path).IsProgram path := ⟨_, if_pos rfl, rfl⟩

/-- What is loaded there is the program. -/
theorem loadProgram_only {path prog : Bytes} {args vars : List Bytes} {l : Loaded}
    (h : loadProgram (only path) prog args vars = some l) : prog = path ∧ l = ⟨prog, args, vars⟩ := by
  by_cases hprog : prog = path
  · subst hprog
    rw [loadProgram_of_isProgram (isProgram_only prog)] at h
    exact ⟨rfl, (Option.some.inj h).symm⟩
  · simp [loadProgram, only, hprog] at h

/-- The vector that Blink hands on begins with the path. -/
theorem passes_of_kept {path : CString} {argv envp : List CString} (h : Kept path argv envp) :
    Passes path argv envp := by
  intro fs hprog
  obtain ⟨rest, rfl⟩ : ∃ rest, argv = path :: rest := by
    have hname := h.name
    cases argv with
    | nil => cases hname
    | cons a rest =>
        cases hname
        exact ⟨rest, rfl⟩
  have hre : ∀ a ∈ path :: rest, Utf8.reencode a.1 = a.1 := fun a ha => Utf8.reencode_eq_iff.2 (h.carried a ha)
  have hrec : ∀ a ∈ path :: rest, recoded a.1 = a.1 := fun a ha => (recoded_eq_iff a.2).2 (h.carried a ha)
  have hmapre : rest.map (fun a => Utf8.reencode a.1) = rest.map Subtype.val :=
    List.map_congr_left fun a ha => hre a (List.mem_cons_of_mem _ ha)
  have hmaprec : rest.map (fun a => recoded a.1) = rest.map Subtype.val :=
    List.map_congr_left fun a ha => hrec a (List.mem_cons_of_mem _ ha)
  have hfits : Fits (blink :: path.1 :: rest.map Subtype.val) := by
    have hcount := h.count
    have htotal := h.total
    have hblink : blink.length = 5 := by decide
    simp only [List.length_cons, List.map_cons, List.sum_cons] at hcount htotal
    refine ⟨by simp only [List.length_cons, List.length_map]; omega, ?_⟩
    simp only [List.map_cons, List.sum_cons, List.map_map, Function.comp_def, hblink]
    omega
  have hmain : main fs (path.1 :: rest.map Subtype.val) =
      some ⟨path.1, path.1 :: rest.map Subtype.val, []⟩ := by
    have hcmd : commandv path.1 = some path.1 := if_pos ⟨h.nonempty, h.length⟩
    rw [main, getOpts_of_not_isOption h.notOption]
    simp only [hcmd]
    exact loadProgram_of_isProgram hprog _ _
  rw [execve_eq, List.tail_cons, hmapre, hmaprec, hre path List.mem_cons_self, hrec path List.mem_cons_self,
    if_pos hfits, hmain, h.environ]
  rfl

/-- Where the lists arrive, the condition holds. -/
theorem kept_of_passes {path : CString} {argv envp : List CString} (h : Passes path argv envp) :
    Kept path argv envp := by
  -- the file system that has nothing but the program shows it
  have honly := h (only path.1) (isProgram_only path.1)
  rw [execve_eq] at honly
  split at honly
  · rename_i hfits
    obtain ⟨l, hmain, hl⟩ := Option.map_eq_some_iff.1 honly
    obtain ⟨zero, name, ps, hopts, hne, hlen, hload⟩ := main_eq_some hmain
    obtain ⟨rfl, rfl⟩ := loadProgram_only hload
    obtain ⟨hargs, hvars⟩ := Prod.mk.inj hl
    have henvp : envp = [] := List.map_eq_nil_iff.1 hvars.symm
    have hargslen := congrArg List.length hargs
    rcases getOpts_cases hopts with ⟨rfl, hwords, hfirst⟩ | hlt
    · obtain ⟨hname, rfl⟩ := List.cons.inj hwords
      rw [if_neg Bool.false_ne_true] at hargs
      have hpath : Carried path.1 := (recoded_eq_iff path.2).1 hname.symm
      cases argv with
      | nil => cases hargs
      | cons a rest =>
          obtain ⟨ha, hrest⟩ := List.cons.inj hargs
          have hcarried : ∀ a ∈ rest, Carried a.1 := fun a ha =>
            (recoded_eq_iff a.2).1 (List.map_inj_left.1 hrest a ha)
          have hre : rest.map (fun a => Utf8.reencode a.1) = rest.map Subtype.val :=
            List.map_congr_left fun a ha => Utf8.reencode_eq_iff.2 (hcarried a ha)
          rw [List.tail_cons, hre, Utf8.reencode_eq_iff.2 hpath] at hfits
          have hblink : blink.length = 5 := by decide
          obtain ⟨hcount, htotal⟩ := hfits
          simp only [List.length_cons, List.length_map] at hcount
          simp only [List.map_cons, List.sum_cons, List.map_map, Function.comp_def, hblink] at htotal
          exact {
            environ := henvp
            name := congrArg some (Subtype.ext ha.symm)
            carried := List.forall_mem_cons.2 ⟨ha ▸ hpath, hcarried⟩
            notOption := hname ▸ hfirst _ rfl
            nonempty := hne
            length := hlen
            count := by simpa using hcount
            total := by simp only [List.map_cons, List.sum_cons, ← ha]; omega }
    · -- an option is gone, and with it one word too many
      simp only [List.length_cons, List.length_map, List.length_tail] at hlt hargslen
      split at hargslen
      · omega
      · rw [List.length_cons] at hargslen
        omega
  · cases honly

/-- **The guest program is started with the vector and the environment it was given if and only if there is
no environment, the vector begins with the path, its strings are valid UTF-8 without a byte order mark in
front and fit the buffers, and the path is a name that Blink takes for a program.** -/
theorem passes_iff (path : CString) (argv envp : List CString) :
    Passes path argv envp ↔ Kept path argv envp := ⟨kept_of_passes, passes_of_kept⟩

/-- The shell under its short name gets the path as its name. -/
theorem not_passes_shortName : ¬ Passes ⟨Utf8.encode ['/', 'b', 'i', 'n', '/', 's', 'h'], by decide⟩
    [⟨Utf8.encode ['s', 'h'], by decide⟩] [] := by
  intro h
  have hname := (kept_of_passes h).name
  exact absurd hname (by decide)

/-! ### The environment that the worker hands out -/

/-- The entries that the kernel makes of an environment. -/
def envEntries (envp : List CString) : List (JsObject.Key × Text) :=
  envp.filterMap fun e => splitEntry (Utf8.decode e.1)

/-- An entry as a text again. -/
def joinEntry (e : JsObject.Key × Text) : Text := e.1 ++ '=' :: e.2

/-- Every entry is carried and has an equals sign, the names are distinct, and those that are array indices
come first and ascend. -/
structure EnvKept (envp : List CString) : Prop where
  carried : ∀ e ∈ envp, Carried e.1
  equals : ∀ e ∈ envp, '=' ∈ Utf8.decode e.1
  distinct : ((envEntries envp).map Prod.fst).Nodup
  ordered : (envEntries envp).Pairwise fun e e' => JsObject.InOrder e.1 e'.1

theorem isSome_splitEntry {t : Text} : (splitEntry t).isSome = true ↔ '=' ∈ t := by
  unfold splitEntry
  split <;> simp_all

/-- An entry is the text that it was split from, and is split from it again. -/
theorem splitEntry_eq_some {t : Text} {e : JsObject.Key × Text} (h : splitEntry t = some e) :
    joinEntry e = t ∧ splitEntry (joinEntry e) = some e := by
  have hjoin : joinEntry e = t := by
    unfold splitEntry at h
    split at h
    · rename_i heq
      cases h
      obtain ⟨k, v, rfl, hk⟩ := List.eq_append_cons_of_mem heq
      have hne : ∀ c ∈ k, (decide (c ≠ '=')) = true := fun c hc => by
        simpa using ne_of_mem_of_not_mem hc hk
      show List.takeWhile _ _ ++ '=' :: (List.dropWhile _ _).tail = _
      rw [List.takeWhile_append_of_pos hne, List.dropWhile_append_of_pos hne]
      simp
    · cases h
  exact ⟨hjoin, hjoin ▸ h⟩

/-- What `environ_get` hands out. -/
theorem environ_forkExec (path : CString) (argv envp : List CString) :
    (forkExec (forkExecSpawn path.1 (pack argv) (pack envp))).environ =
      (JsObject.entries (JsObject.fromEntries (envEntries envp))).map fun e => Utf8.encode (joinEntry e) := by
  have hentries : (unpack (pack envp)).filterMap (fun entry => splitEntry (Utf8.decode entry)) =
      envEntries envp := by
    rw [unpack_pack, List.filterMap_map]
    rfl
  show List.map _ (JsObject.entries (JsObject.fromEntries _)) = _
  rw [hentries]
  rfl

/-- The texts of the entries are the entries, decoded and encoded. -/
theorem map_encode_envEntries {envp : List CString} (h : ∀ e ∈ envp, '=' ∈ Utf8.decode e.1) :
    (envEntries envp).map (fun e => Utf8.encode (joinEntry e)) = envp.map fun e => Utf8.reencode e.1 := by
  induction envp with
  | nil => rfl
  | cons e envp ih =>
      obtain ⟨kv, hkv⟩ := Option.isSome_iff_exists.1 (isSome_splitEntry.2 (h e List.mem_cons_self))
      have hcons : envEntries (e :: envp) = kv :: envEntries envp := List.filterMap_cons_some hkv
      rw [hcons, List.map_cons, List.map_cons, (splitEntry_eq_some hkv).1,
        ih fun e' he' => h e' (List.mem_cons_of_mem _ he')]
      rfl

/-- Lists whose elements are sublists of those of another list, and that are in all as long, are equal. -/
theorem map_eq_of_sublist {A B : Type} {f g : A → List B} {l : List A} (hsub : ∀ a ∈ l, (f a).Sublist (g a))
    (hsum : (l.map fun a => (g a).length).sum ≤ (l.map fun a => (f a).length).sum) :
    ∀ a ∈ l, f a = g a := by
  induction l with
  | nil => simp
  | cons a l ih =>
      have hrest : (l.map fun a => (f a).length).sum ≤ (l.map fun a => (g a).length).sum :=
        List.sum_le_sum fun a' ha' => (hsub a' (List.mem_cons_of_mem _ ha')).length_le
      have hhead := (hsub a List.mem_cons_self).length_le
      simp only [List.map_cons, List.sum_cons] at hsum
      refine List.forall_mem_cons.2 ⟨(hsub a List.mem_cons_self).eq_of_length_le (by omega), ?_⟩
      exact ih (fun a' ha' => hsub a' (List.mem_cons_of_mem _ ha')) (by omega)

/-- Entries that come out as they went in were split from every entry, under distinct names. -/
theorem length_envEntries {envp : List CString}
    (h : (JsObject.entries (JsObject.fromEntries (envEntries envp))).length = envp.length) :
    (∀ e ∈ envp, '=' ∈ Utf8.decode e.1) ∧ ((envEntries envp).map Prod.fst).Nodup := by
  have hsize : (JsObject.fromEntries (envEntries envp)).size = envp.length := by
    rw [← h]
    exact ((JsObject.perm_entries _).length_eq).symm
  have hle : (envEntries envp).length ≤ envp.length := List.length_filterMap_le _ _
  have hnodup := JsMap.nodup_of_length_le_size (hle.trans_eq hsize.symm)
  have hentries : (JsObject.fromEntries (envEntries envp)).entries = envEntries envp :=
    JsMap.entries_setAll (by simpa [JsMap.keys, JsMap.empty] using hnodup)
  have hlength : (envEntries envp).length = envp.length := by rw [← hsize, JsMap.size, hentries]
  exact ⟨fun e he => isSome_splitEntry.1 (List.filterMap_length_eq_length.1 hlength e he), hnodup⟩

/-- **The worker hands out the environment as it was given if and only if its entries are carried and have an
equals sign, no name occurs twice, and the names that are array indices come first and ascend.** -/
theorem environ_forkExec_iff (path : CString) (argv envp : List CString) :
    (forkExec (forkExecSpawn path.1 (pack argv) (pack envp))).environ = envp.map Subtype.val ↔
      EnvKept envp := by
  rw [environ_forkExec]
  constructor
  · intro h
    obtain ⟨hequals, hnodup⟩ := length_envEntries (by simpa using congrArg List.length h)
    have hentries : (JsObject.fromEntries (envEntries envp)).entries = envEntries envp :=
      JsMap.entries_setAll (by simpa [JsMap.keys, JsMap.empty] using hnodup)
    have hperm : (JsObject.entries (JsObject.fromEntries (envEntries envp))).Perm (envEntries envp) := by
      have hall := JsObject.perm_entries (JsObject.fromEntries (envEntries envp))
      rwa [hentries] at hall
    -- what is handed out is as long as what was given, so no byte order mark was lost
    have hbytes : (envp.map fun e => Utf8.reencode e.1).Perm (envp.map Subtype.val) := by
      rw [← map_encode_envEntries hequals, ← h]
      exact (hperm.map _).symm
    have hre : ∀ e ∈ envp, Utf8.reencode e.1 = e.1 := by
      refine map_eq_of_sublist (fun e he => ?_) ?_
      · have hmem : e.1 ∈ envp.map Subtype.val := List.mem_map_of_mem he
        rw [← h] at hmem
        obtain ⟨kv, -, hkv⟩ := List.mem_map.1 hmem
        rw [← hkv]
        exact Utf8.reencode_encode_sublist _
      · have hsum := (hbytes.map List.length).sum_eq
        simp only [List.map_map, Function.comp_def] at hsum
        exact hsum.ge
    -- so the texts are the same, in the same order, and with them the names and values
    have hsame : (JsObject.entries (JsObject.fromEntries (envEntries envp))).map
        (fun e => Utf8.encode (joinEntry e)) =
        (envEntries envp).map fun e => Utf8.encode (joinEntry e) := by
      rw [h, map_encode_envEntries hequals]
      exact (List.map_congr_left hre).symm
    have hsplit : ∀ e ∈ envEntries envp,
        splitEntry (Utf8.run Utf8.Decoder.start (Utf8.encode (joinEntry e))) = some e := by
      intro e he
      obtain ⟨s, -, hs⟩ := List.mem_filterMap.1 he
      rw [Utf8.run_encode]
      exact (splitEntry_eq_some hs).2
    have horder : JsObject.entries (JsObject.fromEntries (envEntries envp)) = envEntries envp := by
      have hmap := congrArg (List.map fun bs => splitEntry (Utf8.run Utf8.Decoder.start bs)) hsame
      simp only [List.map_map, Function.comp_def] at hmap
      rw [List.map_congr_left (g := some) fun e he => hsplit e (hperm.mem_iff.1 he),
        List.map_congr_left (g := some) hsplit] at hmap
      exact List.map_injective_iff.2 (Option.some_injective _) hmap
    have hordered := JsObject.entries_eq_iff.1 (horder.trans hentries.symm)
    rw [hentries] at hordered
    exact {
      carried := fun e he => Utf8.reencode_eq_iff.1 (hre e he)
      equals := hequals
      distinct := hnodup
      ordered := hordered }
  · intro h
    have hentries : (JsObject.fromEntries (envEntries envp)).entries = envEntries envp :=
      JsMap.entries_setAll (by simpa [JsMap.keys, JsMap.empty] using h.distinct)
    have horder : JsObject.entries (JsObject.fromEntries (envEntries envp)) = envEntries envp := by
      rw [JsObject.entries_eq_iff.2 (by rw [hentries]; exact h.ordered), hentries]
    rw [horder, map_encode_envEntries h.equals]
    exact List.map_congr_left fun e he => Utf8.reencode_eq_iff.2 (h.carried e he)

end ExecArguments
