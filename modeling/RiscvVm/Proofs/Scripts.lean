import RiscvVm.Lib.Fuel
import RiscvVm.Proofs.Debugger
import RiscvVm.Proofs.Typing

namespace RiscvVm.Proofs
open Fuel

/-- `run` looks for a breakpoint before each step. -/
def atBreakpoint (breakpoints : Breakpoints) (vm : Vm) : Bool := isBreakpoint breakpoints vm.cpu.pc

theorem run_loop_eq (breakpoints : Breakpoints) (turns : Nat) (vm : Vm) :
    runLoop breakpoints turns vm = loop (atBreakpoint breakpoints) cpuStep turns vm := by
  induction turns generalizing vm with
  | zero => rfl
  | succ turns ih =>
    rw [runLoop, loop, ih, disassemble_line_vm]
    rfl

theorem next_loop_eq (target : BitVec 64) (turns : Nat) (vm : Vm) :
    nextLoop target turns vm = loop (fun vm => decide (vm.cpu.pc = target)) cpuStep turns vm := by
  induction turns generalizing vm with
  | zero => rfl
  | succ turns ih => simp [nextLoop, loop, ih]

section
variable {session : Session}

theorem ran_to_below {o o' : Option Vm} (h : ∀ vm, o = some vm → o' = some vm) :
    Below .outOfFuel (session.ranTo o) (session.ranTo o') := by
  cases o with
  | none => exact Or.inl rfl
  | some vm =>
    rw [h vm rfl]
    exact .refl _

theorem cmd_next_more {turns : Nat} {vm vm' : Vm} (h : cmdNext turns vm = some vm') :
    cmdNext (turns + 1) vm = some vm' := by
  unfold cmdNext at h ⊢
  split
  · rename_i hf
    rw [hf] at h
    exact h
  · rename_i hf
    rw [hf] at h
    dsimp only at h
    split
    · rename_i hcall
      rw [if_pos hcall, next_loop_eq] at h
      rw [next_loop_eq]
      exact loop_more h
    · rename_i hcall
      rw [if_neg hcall] at h
      exact h

theorem script_line_below {d d' : Dispatch}
    (h : ∀ session line, Below .outOfFuel (d session line) (d' session line)) (path : String)
    (file : List (BitVec 8)) (session : Session) (line : List (BitVec 8)) :
    Below .outOfFuel (scriptLine d path file session line)
      (scriptLine d' path file session line) := by
  unfold scriptLine
  split
  · exact .refl _
  · exact (h _ _).bind fun _ => .refl _

theorem call_below {d d' : Dispatch} {turns : Nat}
    (h : ∀ session line, Below .outOfFuel (d session line) (d' session line)) (session : Session)
    (argv : List String) (command : Command) :
    Below .outOfFuel (callCommand d turns session argv command)
      (callCommand d' (turns + 1) session argv command) := by
  cases command with
  | cmdRun =>
    refine ran_to_below fun vm hvm => ?_
    rw [run_loop_eq] at hvm ⊢
    exact loop_more hvm
  | cmdNext => exact ran_to_below fun vm hvm => cmd_next_more hvm
  | cmdScript =>
    simp only [callCommand, cmdScript]
    split
    · exact .refl _
    · split
      · exact .refl _
      · exact .foldlM (script_line_below h _ _) _ _
  | cmdBreak =>
    simp only [callCommand]
    split <;> exact .refl _
  | _ => exact .refl _

theorem obey_below {fuel : Nat}
    (h : ∀ session line, Below .outOfFuel (dispatchCommand fuel session line)
      (dispatchCommand (fuel + 1) session line)) (session : Session) (line : List Char) :
    Below .outOfFuel (obey fuel session line) (obey (fuel + 1) session line) := by
  unfold obey
  split
  · exact .refl _
  · split
    · exact .refl _
    · split
      · exact .refl _
      · split
        · exact .refl _
        · split
          · exact .refl _
          · exact (call_below h _ _ _).bind fun _ => .refl _

/-- More fuel changes nothing. -/
theorem dispatch_below (fuel : Nat) (session : Session) (line : List Char) :
    Below .outOfFuel (dispatchCommand fuel session line)
      (dispatchCommand (fuel + 1) session line) := by
  induction fuel generalizing session line with
  | zero => exact Or.inl rfl
  | succ fuel ih =>
    rw [dispatch_obeys, dispatch_obeys]
    exact obey_below ih session line

theorem cli_loop_below (fuel : Nat) (session : Session) (lines : List (List (BitVec 8))) :
    Below .outOfFuel (cliLoop (dispatchCommand fuel) session lines)
      (cliLoop (dispatchCommand (fuel + 1)) session lines) := by
  induction lines generalizing session with
  | nil => exact .refl _
  | cons line lines ih =>
    refine (dispatch_below fuel session _).bind fun done => ?_
    dsimp only
    split
    · exact ih _
    · exact .refl _

theorem cli_run_below (fuel : Nat) (session : Session) (stdin : List (BitVec 8)) :
    Below .outOfFuel (cliRun fuel session stdin) (cliRun (fuel + 1) session stdin) :=
  cli_loop_below fuel session _

end

section
variable {P : Session → Prop} {ok : List Char → Prop}

/-- What every command keeps on the lines of some kind, and which lines these
are: with a script all of its lines. -/
structure Keeping (P : Session → Prop) (ok : List Char → Prop) : Prop where
  call : ∀ {d : Dispatch} {turns : Nat} {session session' : Session} {line : List Char}
    {command : Command}, P session → ok line → commandOf (bufferAfter line) = some command →
    command ≠ .cmdScript →
    callCommand d turns session ((argvOf line).map String.ofList) command = .ok session' →
    P session'
  script : ∀ {session : Session} {line text : List Char} {path : String}
    {file readLine : List (BitVec 8)}, P session → ok line →
    commandOf (bufferAfter line) = some .cmdScript →
    ((argvOf line).map String.ofList)[1]? = some path → session.files.fopen path = some file →
    readLine ∈ linesOf 256 file → scriptText readLine = some text → ok text

variable {d : Dispatch} {session session' : Session} {line : List Char}

theorem Keeping.run_script (h : Keeping P ok)
    (hd : ∀ session line done, P session → ok line → d session line = .ok done → P done.1)
    (hp : P session) (hline : ok line) (hcommand : commandOf (bufferAfter line) = some .cmdScript)
    (hc : cmdScript d session ((argvOf line).map String.ofList) = .ok session') : P session' := by
  unfold cmdScript at hc
  split at hc
  · cases hc
    exact hp
  · rename_i path hpath
    split at hc
    · cases hc
      exact hp
    · rename_i file hfile
      refine foldlM_keeps (fun before read after hread hbefore hafter => ?_) hp hc
      unfold scriptLine at hafter
      split at hafter
      · cases hafter
      · rename_i text htext
        cases hdone : d before text with
        | error e =>
          rw [hdone] at hafter
          cases hafter
        | ok done =>
          have hkept := hd before text done hbefore
            (h.script hp hline hcommand hpath hfile hread htext) hdone
          rw [hdone] at hafter
          change (if _ then _ else _) = _ at hafter
          split at hafter
          · cases hafter
            exact hkept
          · cases hafter

theorem Keeping.dispatch (h : Keeping P ok) {fuel : Nat} {done : Session × Bool} (hp : P session)
    (hline : ok line) (hd : dispatchCommand fuel session line = .ok done) : P done.1 := by
  induction fuel generalizing session line done with
  | zero => cases hd
  | succ fuel ih =>
    rw [dispatchCommand] at hd
    dsimp only at hd
    split at hd
    · cases hd
    · split at hd
      · cases hd
        exact hp
      · split at hd
        · cases hd
          exact hp
        · rename_i command hcommand
          cases hc : callCommand (dispatchCommand fuel) fuel session
            ((argvOf line).map String.ofList) command with
          | error e =>
            rw [hc] at hd
            cases hd
          | ok session' =>
            rw [hc] at hd
            cases hd
            by_cases hs : command = .cmdScript
            · subst hs
              exact h.run_script (fun _ _ _ => ih) hp hline hcommand hc
            · exact h.call hp hline hcommand hs hc

end

section
variable {session : Session}

theorem call_files {d : Dispatch} {turns : Nat} {session' : Session} {argv : List String}
    {command : Command} (hsave : command ≠ .cmdSave) (hscript : command ≠ .cmdScript)
    (h : callCommand d turns session argv command = .ok session') :
    session'.files = session.files := by
  have hran : ∀ o, session.ranTo o = .ok session' → session'.files = session.files := by
    intro o ho
    cases o <;> cases ho
    rfl
  cases command with
  | cmdRun => exact hran _ h
  | cmdNext => exact hran _ h
  | cmdSave => exact absurd rfl hsave
  | cmdScript => exact absurd rfl hscript
  | cmdLoad =>
    simp only [callCommand] at h
    split at h <;> cases h
    rfl
  | cmdBreak =>
    simp only [callCommand] at h
    split at h <;> cases h
    rfl
  | cmdReload =>
    simp only [callCommand, cmdReload] at h
    split at h <;> cases h
    rfl
  | _ =>
    cases h
    rfl

/-- The path names this file, which is not the one that `save` writes. -/
structure ReadOnly (path : String) (file : List (BitVec 8)) (session : Session) : Prop where
  other : session.files.names path ≠ session.files.names saveDump
  holds : session.files.fopen path = some file

/-- No command changes such a file. -/
theorem keeps_read_only (path : String) (file : List (BitVec 8)) :
    Keeping (ReadOnly path file) fun _ => True where
  call := by
    intro d turns session session' line command h _ _ hscript hcall
    by_cases hsave : command = .cmdSave
    · subst hsave
      simp only [callCommand, cmdSave] at hcall
      split at hcall <;> cases hcall
      refine ⟨h.other, ?_⟩
      rw [← h.holds]
      exact if_neg h.other
    · have hfiles := call_files hsave hscript hcall
      obtain ⟨hother, hholds⟩ := h
      rw [← hfiles] at hother hholds
      exact ⟨hother, hholds⟩
  script := fun _ _ _ _ _ _ _ => trivial

end

/-- How a session ends on what is typed, whatever the fuel. -/
def SessionEnds (session : Session) (stdin : List (BitVec 8))
    (result : Except Stop (Session × BitVec 8)) : Prop :=
  Ends .outOfFuel (fun fuel => cliRun fuel session stdin) result

def bytesOf (s : String) : List (BitVec 8) := s.toList.map fun c => BitVec.ofNat 8 c.toNat

/-- An argument as the command gets it. -/
def textOf (word : List (BitVec 8)) : String := String.ofList (word.map charOf)

/-- The line does not end the session. -/
def GoesOn (line : List (BitVec 8)) : Prop := bufferAfter (line.map charOf) ≠ "exit".toList

section
variable {session : Session} {line path : List (BitVec 8)} {lines : List (List (BitVec 8))}

theorem dispatch_goes_on (h : GoesOn line) (fuel : Nat) (session : Session) :
    dispatchCommand fuel session (line.map charOf) =
      ((dispatchCommand fuel session (line.map charOf)).map Prod.fst).map fun s => (s, true) := by
  cases fuel with
  | zero => rfl
  | succ fuel =>
    rw [dispatchCommand]
    dsimp only
    split
    · rfl
    · rw [if_neg h]
      split
      · rfl
      · rename_i command _
        cases callCommand (dispatchCommand fuel) fuel session
          ((argvOf (line.map charOf)).map String.ofList) command <;> rfl

/-- Lines at the prompt do one after the other what they do in a script. -/
theorem cli_loop_lines (h : ∀ line ∈ lines, PlainLine 256 line ∧ GoesOn line) {name : String}
    {file : List (BitVec 8)} (fuel : Nat) {session : Session} (hread : ReadOnly name file session)
    (more : List (List (BitVec 8))) :
    cliLoop (dispatchCommand fuel) session (lines.map (· ++ [newline]) ++ more) =
      (lines.map (· ++ [newline])).foldlM (scriptLine (dispatchCommand fuel) name file) session >>=
        fun session => cliLoop (dispatchCommand fuel) session more := by
  induction lines generalizing session with
  | nil => rfl
  | cons line lines ih =>
    obtain ⟨hplain, hgoes⟩ := h line (by simp)
    have hrest := fun after => @ih (fun l hl => h l (by simp [hl])) after
    rw [List.map_cons, List.cons_append, cliLoop, input_text_plain hplain.ended hplain.whole,
      dispatch_goes_on hgoes, List.foldlM_cons, scriptLine, script_text_plain hplain.whole]
    dsimp only
    cases hd : dispatchCommand fuel session (line.map charOf) with
    | error e => rfl
    | ok done =>
      have hafter := (keeps_read_only name file).dispatch hread trivial hd
      refine (hrest done.1 hafter).trans ?_
      change _ = (if _ then _ else _) >>= _ >>= _
      rw [if_pos hafter.holds]
      rfl

theorem PlainLine.wider (h : PlainLine 256 line) : PlainLine 1024 line :=
  ⟨h.ended, h.whole, Nat.le_trans h.fits (by decide)⟩

end

/-- A line that is typed as the name of a command and its arguments. -/
def commandLine (name : String) (args : List (List (BitVec 8))) : List (BitVec 8) :=
  [32].intercalate (bytesOf name :: args)

theorem command_line_head {name : String} (hname : IsWord (bytesOf name))
    (args : List (List (BitVec 8))) : ((commandLine name args).map charOf).head? ≠ some ' ' := by
  intro hhead
  obtain ⟨c, tail, hbytes⟩ := List.exists_cons_of_ne_nil hname.some
  have hc : charOf c = ' ' := by
    rw [commandLine, hbytes] at hhead
    cases args <;> simpa [List.intercalate_cons_cons] using hhead
  refine hname.together ?_
  rw [hbytes, ← char_of_space.mp hc]
  exact List.mem_cons_self

/-- A command that is typed with its arguments is called with them. -/
theorem command_line_obeys {name : String} {command : Command}
    (hcommand : commandOf name.toList = some command) (hname : IsWord (bytesOf name))
    (hbytes : (bytesOf name).map charOf = name.toList) {args : List (List (BitVec 8))}
    (hargs : ∀ arg ∈ args, IsWord arg) (hlen : args.length < 16) (fuel : Nat) (session : Session) :
    obey fuel session ((commandLine name args).map charOf) =
      (callCommand (dispatchCommand fuel) fuel session (name :: args.map textOf) command).map
        fun s => (s, true) := by
  have hexit : name.toList ≠ "exit".toList := by
    intro he
    have hnone : commandOf "exit".toList = none := by decide
    rw [he, hnone] at hcommand
    cases hcommand
  have hwords : wordsOf ((commandLine name args).map charOf) =
      name.toList :: args.map (·.map charOf) := by
    rw [commandLine, words_of_typed fun word hword => ?_, List.map_cons, hbytes]
    obtain rfl | hword := List.mem_cons.mp hword
    · exact hname
    · exact hargs word hword
  have hargv : (name.toList :: args.map (·.map charOf)).map String.ofList =
      name :: args.map textOf := by
    simp [textOf, Function.comp_def]
  rw [obey, hwords]
  dsimp only
  rw [if_neg (by simpa using hlen), if_neg (command_line_head hname args), if_neg hexit, hcommand,
    hargv]
  dsimp only
  cases callCommand (dispatchCommand fuel) fuel session (name :: args.map textOf) command <;> rfl

section
variable {session : Session} {path : List (BitVec 8)} {lines : List (List (BitVec 8))}

/-- Typing `script` with a file's path does what typing its lines does, for any
file but the one that `save` writes. -/
theorem script_inlines (hpath : IsWord path) (hline : PlainLine 1024 (commandLine "script" [path]))
    (hfile : ReadOnly (textOf path) (typed lines) session)
    (hlines : ∀ line ∈ lines, PlainLine 256 line ∧ GoesOn line) (rest : List (BitVec 8))
    (result : Except Stop (Session × BitVec 8)) :
    SessionEnds session (commandLine "script" [path] ++ newline :: rest) result ↔
      SessionEnds session (typed lines ++ rest) result := by
  have hscript : ∀ fuel,
      cliRun (fuel + 1) session (commandLine "script" [path] ++ newline :: rest) =
        (lines.map (· ++ [newline])).foldlM
          (scriptLine (dispatchCommand fuel) (textOf path) (typed lines)) session >>=
        fun s => cliRun (fuel + 1) s rest := by
    intro fuel
    have hcalled := @command_line_obeys "script" .cmdScript (by decide) ⟨by decide, by decide⟩
      (by decide) [path] (by simpa using hpath) (by simp) fuel session
    have hrun : cmdScript (dispatchCommand fuel) session ["script", textOf path] =
        (lines.map (· ++ [newline])).foldlM
          (scriptLine (dispatchCommand fuel) (textOf path) (typed lines)) session := by
      have hargv : (["script", textOf path] : List String)[1]? = some (textOf path) := rfl
      unfold cmdScript
      rw [hargv]
      dsimp only
      rw [hfile.holds]
      dsimp only
      rw [lines_of_file fun line hl => (hlines line hl).1]
    rw [cli_run_line hline, dispatch_obeys, hcalled, List.map_singleton, callCommand, hrun]
    cases (lines.map (· ++ [newline])).foldlM
      (scriptLine (dispatchCommand fuel) (textOf path) (typed lines)) session <;> rfl
  have htyped : ∀ fuel, cliRun fuel session (typed lines ++ rest) =
      (lines.map (· ++ [newline])).foldlM
        (scriptLine (dispatchCommand fuel) (textOf path) (typed lines)) session >>=
        fun s => cliRun fuel s rest := by
    intro fuel
    rw [cliRun, lines_of_typed fun line hl => (hlines line hl).1.wider,
      cli_loop_lines hlines _ hfile]
    rfl
  refine ends_congr (fun fuel => ⟨fuel, ?_⟩) fun fuel => ⟨fuel + 1, ?_⟩
  · cases fuel with
    | zero =>
      refine Or.inl ?_
      rw [cli_run_line hline]
      rfl
    | succ fuel =>
      rw [hscript, htyped]
      exact (Below.foldlM (script_line_below (dispatch_below fuel) _ _) _ _).bind fun _ => .refl _
  · rw [hscript, htyped]
    exact (Below.refl _).bind fun s => cli_run_below fuel s rest

/-- Puts a `nop` at the start of RAM and runs to the word after it. -/
def nopLines : List (List (BitVec 8)) :=
  [bytesOf "write 0x80000000 0x13", [], bytesOf "break 0x80000004", bytesOf "run"]

def nopSession : Session :=
  debuggerInit { mem := fun _ => 0 }
    { names := id
      contents := fun name => if name = "nop" then some (typed nopLines) else none
      writable := true }

theorem nop_lines_plain : ∀ line ∈ nopLines, PlainLine 256 line ∧ GoesOn line := by
  have hall : nopLines.all (fun line => !line.contains newline && !line.contains 0 &&
      decide (line.length + 2 ≤ 256) &&
      decide (bufferAfter (line.map charOf) ≠ "exit".toList)) = true := by decide
  intro line hline
  have hthis := List.all_eq_true.mp hall line hline
  simp only [Bool.and_eq_true, decide_eq_true_eq] at hthis
  obtain ⟨⟨⟨hend, hwhole⟩, hfits⟩, hgoes⟩ := hthis
  exact ⟨⟨by simpa using hend, by simpa using hwhole, hfits⟩, hgoes⟩

theorem nop_inlines :
    SessionEnds nopSession (commandLine "script" [bytesOf "nop"] ++ newline :: bytesOf "exit\n")
        (cliRun 8 nopSession (typed nopLines)) ↔
      SessionEnds nopSession (typed nopLines ++ bytesOf "exit\n")
        (cliRun 8 nopSession (typed nopLines)) :=
  script_inlines ⟨by decide, by decide⟩ ⟨by decide, by decide, by decide⟩ ⟨by decide, rfl⟩
    nop_lines_plain _ _

theorem ran_to_ends {f : Nat → Option Vm} {result : Except Stop Session} :
    Ends .outOfFuel (fun fuel => session.ranTo (f fuel)) result ↔
      ∃ vm, (∃ fuel, f fuel = some vm) ∧ result = .ok { session with vm := vm } := by
  constructor
  · intro ⟨hne, fuel, h⟩
    dsimp only at h
    cases hf : f fuel with
    | none =>
      rw [hf] at h
      exact absurd h.symm hne
    | some vm =>
      rw [hf] at h
      exact ⟨vm, ⟨fuel, hf⟩, h.symm⟩
  · intro ⟨vm, ⟨fuel, hf⟩, h⟩
    subst h
    refine ⟨nofun, fuel, ?_⟩
    dsimp only
    rw [hf]
    rfl

/-- A command that runs the machine ends where its loop does. -/
theorem ran_ends {name : String} {command : Command} {f : Nat → Option Vm}
    (hcommand : commandOf name.toList = some command) (hname : IsWord (bytesOf name))
    (hbytes : (bytesOf name).map charOf = name.toList)
    (hline : PlainLine 1024 (commandLine name []))
    (hcall : ∀ fuel, callCommand (dispatchCommand fuel) fuel session [name] command =
      session.ranTo (f fuel))
    (hmore : ∀ fuel vm, f fuel = some vm → f (fuel + 1) = some vm) (rest : List (BitVec 8))
    (result : Except Stop (Session × BitVec 8)) :
    SessionEnds session (commandLine name [] ++ newline :: rest) result ↔
      ∃ vm, (∃ fuel, f fuel = some vm) ∧ SessionEnds { session with vm := vm } rest result := by
  have hrun : ∀ fuel, cliRun (fuel + 1) session (commandLine name [] ++ newline :: rest) =
      session.ranTo (f fuel) >>= fun s => cliRun (fuel + 1) s rest := by
    intro fuel
    have hcalled := command_line_obeys hcommand hname hbytes (List.forall_mem_nil IsWord)
      (by decide) fuel session
    rw [List.map_nil, hcall] at hcalled
    rw [cli_run_line hline, dispatch_obeys, hcalled]
    cases session.ranTo (f fuel) <;> rfl
  have hmono : ∀ fuel, Below .outOfFuel (session.ranTo (f fuel)) (session.ranTo (f (fuel + 1))) :=
    fun fuel => ran_to_below (hmore fuel)
  have hcongr : SessionEnds session (commandLine name [] ++ newline :: rest) result ↔
      Ends .outOfFuel (fun fuel => session.ranTo (f fuel) >>= fun s => cliRun fuel s rest)
        result := by
    refine ends_congr (fun fuel => ⟨fuel, ?_⟩) fun fuel => ⟨fuel + 1, ?_⟩
    · cases fuel with
      | zero =>
        refine Or.inl ?_
        rw [cli_run_line hline]
        rfl
      | succ fuel =>
        rw [hrun]
        exact (hmono fuel).bind fun _ => .refl _
    · rw [hrun]
      exact (Below.refl _).bind fun s => cli_run_below fuel s rest
  rw [hcongr, ends_bind_iff hmono fun fuel s => cli_run_below fuel s rest]
  simp only [ran_to_ends]
  constructor
  · intro h
    obtain ⟨e, ⟨vm, _, he⟩, _⟩ | ⟨s, ⟨vm, hf, hs⟩, hend⟩ := h
    · cases he
    · cases hs
      exact ⟨vm, hf, hend⟩
  · intro ⟨vm, hf, hend⟩
    exact Or.inr ⟨_, ⟨vm, hf, rfl⟩, hend⟩

/-- What `next` comes to: behind a call where execution first comes back to the
word after it, and otherwise nowhere. -/
def Skips (vm vm' : Vm) : Prop :=
  match cpuFetch vm with
  | (fetched, none) => vm' = fetched
  | (fetched, some instruction) =>
    if isCall instruction then
      ∃ n, StopsAfter (fun vm => decide (vm.cpu.pc = fetched.cpu.pc + 4)) cpuStep fetched n ∧
        vm' = cpuStep^[n] fetched
    else vm' = fetched

theorem cmd_next_iff {vm vm' : Vm} : (∃ turns, cmdNext turns vm = some vm') ↔ Skips vm vm' := by
  have hsame : ∀ fetched : Vm, (∃ _ : Nat, some fetched = some vm') ↔ vm' = fetched := by
    intro fetched
    rw [exists_const, Option.some.injEq]
    exact eq_comm
  unfold cmdNext Skips
  obtain ⟨fetched, word⟩ := cpuFetch vm
  cases word with
  | none => exact hsame _
  | some instruction =>
    dsimp only
    split
    · simp only [next_loop_eq]
      exact loop_iff
    · exact hsame _

/-- `run` goes on after as many steps as come to the first breakpoint, `next`
after those that come back from a call, and neither where there is no such place. -/
theorem loops_stop (session : Session) (rest : List (BitVec 8))
    (result : Except Stop (Session × BitVec 8)) :
    (SessionEnds session (commandLine "run" [] ++ newline :: rest) result ↔
      ∃ n, StopsAfter (atBreakpoint session.breakpoints) cpuStep session.vm n ∧
        SessionEnds { session with vm := cpuStep^[n] session.vm } rest result) ∧
    (SessionEnds session (commandLine "next" [] ++ newline :: rest) result ↔
      ∃ vm, Skips session.vm vm ∧ SessionEnds { session with vm := vm } rest result) := by
  constructor
  · have hends := @ran_ends session "run" .cmdRun
      (fun turns => loop (atBreakpoint session.breakpoints) cpuStep turns session.vm) (by decide)
      ⟨by decide, by decide⟩ (by decide) ⟨by decide, by decide, by decide⟩
      (fun fuel => by rw [callCommand, run_loop_eq]) (fun _ _ => loop_more) rest result
    rw [hends]
    constructor
    · intro ⟨vm, hloop, hend⟩
      obtain ⟨n, hn, rfl⟩ := loop_iff.mp hloop
      exact ⟨n, hn, hend⟩
    · intro ⟨n, hn, hend⟩
      exact ⟨_, loop_iff.mpr ⟨n, hn, rfl⟩, hend⟩
  · have hends := @ran_ends session "next" .cmdNext (fun turns => cmdNext turns session.vm)
      (by decide) ⟨by decide, by decide⟩ (by decide) ⟨by decide, by decide, by decide⟩
      (fun _ => rfl) (fun _ _ => cmd_next_more) rest result
    rw [hends]
    constructor
    · intro ⟨vm, hnext, hend⟩
      exact ⟨vm, cmd_next_iff.mp hnext, hend⟩
    · intro ⟨vm, hskips, hend⟩
      exact ⟨vm, cmd_next_iff.mpr hskips, hend⟩

end

end RiscvVm.Proofs
