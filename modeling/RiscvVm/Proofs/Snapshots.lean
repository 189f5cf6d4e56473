import RiscvVm.Proofs.Ram
import RiscvVm.Proofs.Scripts

namespace RiscvVm.Proofs
open Fuel

/-- What `save` writes `reload` reads back. -/
theorem fread_fwrite (ram ram' : Memory) : freadRam ram' (fwriteRam ram) = ramLike ram ram' := by
  refine congrArg Memory.mk (funext fun idx => ite_congr rfl (fun h => ?_) fun _ => rfl)
  have hidx : idx.toNat < ramSize.toNat := h
  simp [fwriteRam, List.getElem?_range hidx]

/-- The session after `save`. -/
def saved (session : Session) : Session :=
  { session with files := session.files.write saveDump (fwriteRam session.vm.bus.ram) }

/-- The session after `reload`, where `save` has seen this RAM. -/
def restored (ram : Memory) (session : Session) : Session :=
  { session with
    vm :=
      { cpu := cpuReset session.vm.cpu ramBase
        bus := { session.vm.bus with ram := ramLike ram session.vm.bus.ram } } }

/-- The line does not save, nor does it run a script that is not trusted. -/
structure Spares (trusted : String → Prop) (line : List Char) : Prop where
  saves : commandOf (bufferAfter line) ≠ some .cmdSave
  scripts : commandOf (bufferAfter line) = some .cmdScript →
    ∀ path, ((argvOf line).map String.ofList)[1]? = some path → trusted path

/-- Trusted scripts are of such lines. -/
def Trusting (files : Files) (trusted : String → Prop) : Prop :=
  ∀ path, trusted path → ∀ file, files.fopen path = some file → ∀ line ∈ linesOf 256 file,
    ∀ text, scriptText line = some text → Spares trusted text

section
variable {trusted : String → Prop} {session : Session}

theorem keeps_files {files : Files} (h : Trusting files trusted) :
    Keeping (fun session => session.files = files) (Spares trusted) where
  call := by
    intro d turns session session' line command hfiles hline hcommand hscript hcall
    have hsave : command ≠ .cmdSave := fun hs => hline.saves (hs ▸ hcommand)
    exact (call_files hsave hscript hcall).trans hfiles
  script := by
    intro session line text path file readLine hfiles hline hcommand hpath hopen hread htext
    rw [hfiles] at hopen
    exact h path (hline.scripts hcommand path hpath) file hopen readLine hread text htext

end

/-- What lines at the prompt do, and whether the session goes on after them. -/
def typeLines (dispatch : Dispatch) (session : Session) :
    List (List Char) → Except Stop (Session × Bool)
  | [] => .ok (session, true)
  | line :: lines => do
    let (session, goOn) ← dispatch session line
    if goOn then typeLines dispatch session lines else return (session, false)

section
variable {trusted : String → Prop} {session : Session} {lines : List (List (BitVec 8))}

theorem cli_loop_typed (h : ∀ line ∈ lines, PlainLine 1024 line) (dispatch : Dispatch)
    (session : Session) (more : List (List (BitVec 8))) :
    cliLoop dispatch session (lines.map (· ++ [newline]) ++ more) =
      typeLines dispatch session (lines.map (·.map charOf)) >>= fun done =>
        if done.2 then cliLoop dispatch done.1 more else .ok (done.1, 0) := by
  induction lines generalizing session with
  | nil => rfl
  | cons line lines ih =>
    have hplain := h line (by simp)
    have hrest := ih fun l hl => h l (by simp [hl])
    rw [List.map_cons, List.cons_append, cliLoop, input_text_plain hplain.ended hplain.whole,
      List.map_cons, typeLines]
    cases dispatch session (line.map charOf) with
    | error e => rfl
    | ok done =>
      obtain ⟨session', goOn⟩ := done
      cases goOn
      · rfl
      · exact hrest session'

theorem Keeping.type_lines {P : Session → Prop} {ok : List Char → Prop} (h : Keeping P ok)
    {fuel : Nat} {texts : List (List Char)} {done : Session × Bool} (hp : P session)
    (hlines : ∀ line ∈ texts, ok line)
    (hd : typeLines (dispatchCommand fuel) session texts = .ok done) : P done.1 := by
  induction texts generalizing session with
  | nil =>
    cases hd
    exact hp
  | cons line texts ih =>
    rw [typeLines] at hd
    cases hfirst : dispatchCommand fuel session line with
    | error e =>
      rw [hfirst] at hd
      cases hd
    | ok after =>
      have hafter := h.dispatch hp (hlines line (by simp)) hfirst
      obtain ⟨session', goOn⟩ := after
      rw [hfirst] at hd
      cases goOn
      · cases hd
        exact hafter
      · exact ih hafter (fun l hl => hlines l (by simp [hl])) hd

theorem save_obeys (hwritable : session.files.writable = true) (fuel : Nat) :
    obey fuel session ((commandLine "save" []).map charOf) = .ok (saved session, true) := by
  have hcalled := @command_line_obeys "save" .cmdSave (by decide) ⟨by decide, by decide⟩
    (by decide) [] (by simp) (by simp) fuel session
  rw [hcalled, callCommand, cmdSave, if_pos hwritable]
  rfl

theorem reload_obeys {ram : Memory}
    (hfile : session.files.fopen saveDump = some (fwriteRam ram)) (fuel : Nat) :
    obey fuel session ((commandLine "reload" []).map charOf) =
      .ok (restored ram session, true) := by
  have hcalled := @command_line_obeys "reload" .cmdReload (by decide) ⟨by decide, by decide⟩
    (by decide) [] (by simp) (by simp) fuel session
  rw [hcalled, callCommand, cmdReload, hfile]
  dsimp only
  rw [fread_fwrite]
  rfl

/-- `reload` brings the RAM back that the last `save` has seen and resets the
CPU; the devices and the breakpoints stay as they have become. -/
theorem reload_restores (hwritable : session.files.writable = true)
    (htrust : Trusting (saved session).files trusted)
    (hlines : ∀ line ∈ lines, PlainLine 1024 line ∧ Spares trusted (line.map charOf)) (fuel : Nat)
    (rest : List (BitVec 8)) :
    cliRun (fuel + 1) session (commandLine "save" [] ++ newline ::
        (typed lines ++ (commandLine "reload" [] ++ newline :: rest))) =
      typeLines (dispatchCommand (fuel + 1)) (saved session) (lines.map (·.map charOf)) >>=
        fun done =>
          if done.2 then cliRun (fuel + 1) (restored session.vm.bus.ram done.1) rest
          else .ok (done.1, 0) := by
  have hfirst := @cli_run_line (commandLine "save" []) ⟨by decide, by decide, by decide⟩
    (fuel + 1) session (typed lines ++ (commandLine "reload" [] ++ newline :: rest))
  rw [dispatch_obeys, save_obeys hwritable] at hfirst
  refine hfirst.trans ?_
  have hmiddle : goOnWith (fuel + 1) (typed lines ++ (commandLine "reload" [] ++ newline :: rest))
      (saved session, true) =
      cliLoop (dispatchCommand (fuel + 1)) (saved session) (lines.map (· ++ [newline]) ++
        linesOf 1024 (commandLine "reload" [] ++ newline :: rest)) := by
    rw [← lines_of_typed fun line hl => (hlines line hl).1]
    rfl
  refine hmiddle.trans ?_
  rw [cli_loop_typed fun line hl => (hlines line hl).1]
  cases hdone : typeLines (dispatchCommand (fuel + 1)) (saved session)
    (lines.map (·.map charOf)) with
  | error e => rfl
  | ok done =>
    obtain ⟨session', goOn⟩ := done
    cases goOn with
    | false => rfl
    | true =>
      have htexts : ∀ text ∈ lines.map (·.map charOf), Spares trusted text := by
        intro text htext
        obtain ⟨line, hline, rfl⟩ := List.mem_map.mp htext
        exact (hlines line hline).2
      have hfiles : session'.files = (saved session).files :=
        (keeps_files htrust).type_lines rfl htexts hdone
      have hopen : session'.files.fopen saveDump = some (fwriteRam session.vm.bus.ram) := by
        rw [hfiles]
        simp [saved, Files.fopen, Files.write]
      have hlast := @cli_run_line (commandLine "reload" [])
        ⟨by decide, by decide, by decide⟩ (fuel + 1) session' rest
      rw [dispatch_obeys, reload_obeys hopen] at hlast
      exact hlast

end

/-- What a session does between `save` and `reload`: it overwrites RAM and runs. -/
def spoilLines : List (List (BitVec 8)) := [bytesOf "write 0x80000000 1", bytesOf "step 3"]

theorem spoil_lines_spare : ∀ line ∈ spoilLines,
    PlainLine 1024 line ∧ Spares (fun _ => False) (line.map charOf) := by
  intro line hline
  simp only [spoilLines, List.mem_cons, List.not_mem_nil, or_false] at hline
  obtain rfl | rfl := hline
  · exact ⟨⟨by decide, by decide, by decide⟩, by decide, fun h => absurd h (by decide)⟩
  · exact ⟨⟨by decide, by decide, by decide⟩, by decide, fun h => absurd h (by decide)⟩

theorem nop_restores :
    cliRun 5 nopSession (commandLine "save" [] ++ newline ::
        (typed spoilLines ++ (commandLine "reload" [] ++ newline :: []))) =
      typeLines (dispatchCommand 5) (saved nopSession) (spoilLines.map (·.map charOf)) >>=
        fun done =>
          if done.2 then cliRun 5 (restored nopSession.vm.bus.ram done.1) []
          else .ok (done.1, 0) :=
  reload_restores rfl (fun _ htrusted => htrusted.elim) spoil_lines_spare 4 []

end RiscvVm.Proofs
