import Mathlib.Data.List.TakeWhile
import RiscvVm.Session

namespace RiscvVm.Proofs

section
variable {size : Nat} {line rest stream : List (BitVec 8)}

theorem fgets_loop_line {n : Nat} (hline : newline ∉ line) (hn : line.length < n)
    (rest : List (BitVec 8)) :
    fgetsLoop n (line ++ newline :: rest) = (line ++ [newline], rest) := by
  induction line generalizing n with
  | nil =>
    obtain ⟨m, rfl⟩ := Nat.exists_eq_add_of_lt hn
    simp [fgetsLoop]
  | cons c line ih =>
    obtain ⟨m, rfl⟩ : ∃ m, n = m + 1 := ⟨n - 1, by simp at hn; omega⟩
    simp only [List.mem_cons, not_or] at hline
    have hc : c ≠ newline := fun h => hline.1 h.symm
    simp [fgetsLoop, hc, ih hline.2 (by simpa using hn)]

/-- `fgets` reads something. -/
theorem fgets_loop_shrinks (n : Nat) (c : BitVec 8) (stream : List (BitVec 8)) :
    (fgetsLoop (n + 1) (c :: stream)).2.length ≤ stream.length := by
  induction n generalizing c stream with
  | zero =>
    simp only [fgetsLoop]
    split <;> simp
  | succ n ih =>
    rw [fgetsLoop]
    split
    · simp
    · cases stream with
      | nil => simp [fgetsLoop]
      | cons c' stream =>
        simp only [List.length_cons]
        exact Nat.le_succ_of_le (ih c' stream)

theorem fgets_lines_enough (hsize : 2 ≤ size) {calls : Nat} (h : stream.length ≤ calls) :
    fgetsLines size calls stream = linesOf size stream := by
  obtain ⟨n, rfl⟩ := Nat.exists_eq_add_of_le hsize
  suffices hboth : ∀ m, stream.length ≤ m →
      fgetsLines (2 + n) calls stream = fgetsLines (2 + n) m stream from hboth _ (Nat.le_refl _)
  induction calls generalizing stream with
  | zero =>
    intro m _
    obtain rfl := List.length_eq_zero_iff.mp (Nat.le_zero.mp h)
    cases m <;> rfl
  | succ calls ih =>
    intro m hm
    cases stream with
    | nil => cases m <;> rfl
    | cons c stream =>
      obtain ⟨m, rfl⟩ : ∃ k, m = k + 1 := ⟨m - 1, by simp at hm; omega⟩
      have hshrinks := fgets_loop_shrinks n c stream
      have hsub : 2 + n - 1 = n + 1 := by omega
      simp only [fgetsLines, fgets, hsub]
      simp only [List.length_cons] at h hm
      rw [ih (by omega) m (by omega)]

theorem lines_of_cons (hline : newline ∉ line) (hfits : line.length + 2 ≤ size)
    (rest : List (BitVec 8)) :
    linesOf size (line ++ newline :: rest) = (line ++ [newline]) :: linesOf size rest := by
  obtain ⟨c, tail, htail⟩ : ∃ c tail, line ++ newline :: rest = c :: tail := by
    cases line <;> simp
  have hread := fgets_loop_line (n := size - 1) hline (by omega) rest
  have hlength : (line ++ newline :: rest).length = tail.length + 1 := by rw [htail]; rfl
  rw [linesOf, hlength, fgetsLines]
  simp only [htail, fgets]
  rw [← htail, hread]
  dsimp only
  rw [fgets_lines_enough (by omega) (by simp at hlength; omega)]

end

/-- A line as it is typed or stands in a file, without its newline, that a
buffer of this size holds. -/
structure PlainLine (size : Nat) (line : List (BitVec 8)) : Prop where
  ended : newline ∉ line
  whole : 0 ∉ line
  fits : line.length + 2 ≤ size

/-- These lines with their newlines. -/
def typed (lines : List (List (BitVec 8))) : List (BitVec 8) :=
  (lines.map (· ++ [newline])).flatten

section
variable {size : Nat} {line : List (BitVec 8)}

theorem lines_of_typed {lines : List (List (BitVec 8))} (h : ∀ line ∈ lines, PlainLine size line)
    (rest : List (BitVec 8)) :
    linesOf size (typed lines ++ rest) = lines.map (· ++ [newline]) ++ linesOf size rest := by
  induction lines with
  | nil => simp [typed]
  | cons line lines ih =>
    have hline := h line (by simp)
    have hrest := ih fun l hl => h l (by simp [hl])
    have hsplit : typed (line :: lines) ++ rest = line ++ newline :: (typed lines ++ rest) := by
      simp [typed]
    rw [hsplit, lines_of_cons hline.ended hline.fits, hrest]
    rfl

theorem lines_of_file {lines : List (List (BitVec 8))} (h : ∀ line ∈ lines, PlainLine size line) :
    linesOf size (typed lines) = lines.map (· ++ [newline]) := by
  have hend := lines_of_typed h []
  rw [List.append_nil] at hend
  rw [hend]
  simp [linesOf, fgetsLines]

theorem take_whole (h : 0 ∉ line) : (line ++ [newline]).takeWhile (· != 0) = line ++ [newline] := by
  refine List.takeWhile_eq_self_iff.mpr fun c hc => ?_
  have hne : c ≠ 0 := by
    rintro rfl
    simp [newline] at hc
    exact h hc
  simpa using hne

theorem script_text_plain (h : 0 ∉ line) :
    scriptText (line ++ [newline]) = some (line.map charOf) := by
  obtain ⟨c, tail, htail⟩ : ∃ c tail, line ++ [newline] = c :: tail := by
    cases line <;> simp
  rw [scriptText, take_whole h, htail]
  dsimp only
  rw [← htail, List.dropLast_concat]

theorem input_text_plain (hend : newline ∉ line) (h : 0 ∉ line) :
    inputText (line ++ [newline]) = line.map charOf := by
  have hline : line.takeWhile (· != newline) = line := by
    refine List.takeWhile_eq_self_iff.mpr fun c hc => ?_
    have hne : c ≠ newline := fun he => hend (he ▸ hc)
    simpa using hne
  rw [inputText, take_whole h, List.takeWhile_append, hline]
  simp

end

/-- The words of a line are what stands between its spaces. -/
def wordsOf (line : List Char) : List (List Char) :=
  (line.splitOn ' ').filter fun word => !word.isEmpty

def firstWord (line : List Char) : List Char :=
  (line.dropWhile (· == ' ')).takeWhile (· != ' ')

section
variable {line word rest : List Char}

theorem words_of_space (line : List Char) : wordsOf (' ' :: line) = wordsOf line := by
  have hsplit := List.splitOn_append_cons_self (a := ' ') [] line
  rw [List.nil_append] at hsplit
  simp [wordsOf, hsplit, List.splitOn_nil]

theorem words_of_drop (line : List Char) :
    wordsOf (line.dropWhile (· == ' ')) = wordsOf line := by
  induction line with
  | nil => rfl
  | cons c line ih =>
    by_cases hc : c = ' '
    · subst hc
      rw [words_of_space]
      simpa using ih
    · simp [hc]

theorem words_of_word (hword : ' ' ∉ word) (hne : word ≠ []) : wordsOf word = [word] := by
  simp [wordsOf, List.splitOn_eq_singleton hword, hne]

theorem words_of_cons (hword : ' ' ∉ word) (hne : word ≠ []) (rest : List Char) :
    wordsOf (word ++ ' ' :: rest) = word :: wordsOf rest := by
  simp [wordsOf, List.splitOn_append_cons_self_of_not_mem hword, hne]

/-- A call of `strtok` takes the first word off. -/
theorem strtok_words (line : List Char) :
    (strtok line = none ∧ wordsOf line = []) ∨
      ∃ rest, strtok line = some (firstWord line, rest) ∧
        wordsOf line = firstWord line :: wordsOf rest ∧ rest.length < line.length := by
  have hlength : (line.dropWhile (· == ' ')).length ≤ line.length :=
    (List.dropWhile_sublist _).length_le
  rw [← words_of_drop line, firstWord]
  cases hd : line.dropWhile (· == ' ') with
  | nil => exact Or.inl ⟨by rw [strtok, hd], by simp [wordsOf, List.splitOn_nil]⟩
  | cons c tail =>
    rw [hd] at hlength
    have hc : c ≠ ' ' := by
      have hhead := List.head?_dropWhile_not (· == ' ') line
      rw [hd] at hhead
      simpa using hhead
    have hword : ' ' ∉ (c :: tail).takeWhile (· != ' ') := fun h => by
      simpa using List.mem_takeWhile_imp h
    have hne : (c :: tail).takeWhile (· != ' ') ≠ [] := by simp [hc]
    have hboth := List.takeWhile_append_dropWhile (p := (· != ' ')) (l := c :: tail)
    refine Or.inr ⟨_, by rw [strtok, hd], ?_, ?_⟩
    · cases hr : (c :: tail).dropWhile (· != ' ') with
      | nil =>
        rw [hr, List.append_nil] at hboth
        rw [hboth] at hword hne ⊢
        rw [words_of_word hword hne]
        simp [wordsOf, List.splitOn_nil]
      | cons space after =>
        have hspace : space = ' ' := by
          have hhead := List.head?_dropWhile_not (· != ' ') (c :: tail)
          rw [hr] at hhead
          simpa using hhead
        rw [hr, hspace] at hboth
        have hwords := words_of_cons hword hne after
        rw [hboth] at hwords
        exact hwords
    · have hshort : ((c :: tail).dropWhile (· != ' ')).length ≤ tail.length := by
        rw [List.dropWhile_cons_of_pos (by simpa using hc)]
        exact (List.dropWhile_sublist _).length_le
      simp only [List.length_drop, List.length_cons] at hlength ⊢
      omega

theorem argv_loop_words {n : Nat} (h : line.length ≤ n) : argvLoop n line = wordsOf line := by
  induction n generalizing line with
  | zero =>
    obtain rfl := List.length_eq_zero_iff.mp (Nat.le_zero.mp h)
    simp [argvLoop, wordsOf, List.splitOn_nil]
  | succ n ih =>
    obtain ⟨hnone, hwords⟩ | ⟨rest, hsome, hwords, hshort⟩ := strtok_words line
    · rw [argvLoop, hnone, hwords]
    · rw [argvLoop, hsome, hwords]
      exact congrArg _ (ih (by omega))

theorem argv_of_eq (line : List Char) : argvOf line = wordsOf line :=
  argv_loop_words (Nat.le_refl _)

/-- Words with a space between each two of them. -/
theorem words_of_intercalate {words : List (List Char)}
    (h : ∀ word ∈ words, word ≠ [] ∧ ' ' ∉ word) :
    wordsOf ([' '].intercalate words) = words := by
  cases words with
  | nil => simp [wordsOf, List.splitOn_nil]
  | cons word words =>
    rw [wordsOf, List.splitOn_intercalate ' ' (fun l hl => (h l hl).2) (by simp)]
    refine List.filter_eq_self.mpr fun l hl => ?_
    have hne := (h l hl).1
    simpa using hne

/-- What `strcmp` compares with the names: the first word, if the line begins with it. -/
theorem buffer_after_cases (line : List Char) :
    (line.head? = some ' ' ∧ (bufferAfter line).head? = some ' ') ∨
      (line = [] ∧ bufferAfter line = []) ∨
        (line.head? ≠ some ' ' ∧ ∃ args, wordsOf line = bufferAfter line :: args) := by
  cases line with
  | nil => exact Or.inr (Or.inl ⟨rfl, rfl⟩)
  | cons c tail =>
    by_cases hc : c = ' '
    · subst hc
      exact Or.inl ⟨rfl, by simp [bufferAfter]⟩
    · have hfirst : bufferAfter (c :: tail) = firstWord (c :: tail) := by
        simp [bufferAfter, firstWord, hc]
      obtain ⟨hnone, _⟩ | ⟨rest, _, hwords, _⟩ := strtok_words (c :: tail)
      · simp [strtok, hc] at hnone
      · rw [hfirst]
        exact Or.inr (Or.inr ⟨by simpa using hc, _, hwords⟩)

end

/-- No command has a name that begins with a space, or none at all. -/
theorem command_of_none {name : List Char} (h : name.head? = some ' ' ∨ name = []) :
    commandOf name = none ∧ name ≠ "exit".toList := by
  obtain hhead | rfl := h
  · cases name with
    | nil => cases hhead
    | cons c name =>
      have hc : c = ' ' := by simpa using hhead
      subst hc
      simp [commandOf, commands]
  · simp [commandOf, commands]

/-- What a line of text asks for, by its words. -/
def obey (fuel : Nat) (session : Session) (line : List Char) : Except Stop (Session × Bool) :=
  match wordsOf line with
  | [] => .ok (session, true)
  | name :: args =>
    if 16 ≤ args.length then .error .undefined
    else if line.head? = some ' ' then .ok (session, true)
    else if name = "exit".toList then .ok (session, false)
    else
      match commandOf name with
      | none => .ok (session, true)
      | some command => do
        let argv := (name :: args).map String.ofList
        let session ← callCommand (dispatchCommand fuel) fuel session argv command
        return (session, true)

theorem dispatch_obeys (fuel : Nat) (session : Session) (line : List Char) :
    dispatchCommand (fuel + 1) session line = obey fuel session line := by
  rw [dispatchCommand, obey, argv_of_eq]
  dsimp only
  obtain ⟨hline, hbuffer⟩ | ⟨rfl, hbuffer⟩ | ⟨hline, args, hwords⟩ := buffer_after_cases line
  · obtain ⟨hnone, hexit⟩ := command_of_none (Or.inl hbuffer)
    rw [hnone, if_neg hexit]
    cases wordsOf line with
    | nil => rfl
    | cons name args =>
      dsimp only
      rw [if_pos hline, List.length_cons, maxArgs]
      exact ite_congr (propext Nat.lt_succ_iff) (fun _ => rfl) fun _ => rfl
  · obtain ⟨hnone, hexit⟩ := command_of_none (Or.inr hbuffer)
    rw [hnone, if_neg hexit]
    simp [maxArgs, wordsOf, List.splitOn_nil]
  · rw [hwords, List.length_cons, maxArgs]
    dsimp only
    rw [if_neg hline]
    exact ite_congr (propext Nat.lt_succ_iff) (fun _ => rfl) fun _ => rfl

/-- The session goes on after a line, or is over. -/
def goOnWith (fuel : Nat) (rest : List (BitVec 8)) (done : Session × Bool) :
    Except Stop (Session × BitVec 8) :=
  if done.2 then cliRun fuel done.1 rest else .ok (done.1, 0)

theorem cli_run_line {line : List (BitVec 8)} (h : PlainLine 1024 line) (fuel : Nat)
    (session : Session) (rest : List (BitVec 8)) :
    cliRun fuel session (line ++ newline :: rest) =
      dispatchCommand fuel session (line.map charOf) >>= goOnWith fuel rest := by
  rw [cliRun, lines_of_cons h.ended h.fits, cliLoop, input_text_plain h.ended h.whole]
  rfl

/-- A word as it is typed. -/
structure IsWord (word : List (BitVec 8)) : Prop where
  some : word ≠ []
  together : 32 ∉ word

theorem char_of_space {c : BitVec 8} : charOf c = ' ' ↔ c = 32 := by
  constructor
  · intro h
    have hvalid : c.toNat.isValidChar := Or.inl (Nat.lt_trans c.isLt (by decide))
    have hn : (charOf c).toNat = c.toNat := by
      rw [charOf, Char.ofNat, dif_pos hvalid]
      rfl
    rw [h] at hn
    exact BitVec.eq_of_toNat_eq hn.symm
  · rintro rfl
    rfl

theorem words_of_typed {words : List (List (BitVec 8))} (h : ∀ word ∈ words, IsWord word) :
    wordsOf (([32].intercalate words).map charOf) = words.map (·.map charOf) := by
  have hmap : ([32].intercalate words).map charOf =
      [' '].intercalate (words.map (·.map charOf)) := by
    induction words with
    | nil => rfl
    | cons word words ih =>
      cases words with
      | nil => simp
      | cons next words =>
        have hrest := ih fun w hw => h w (by simp [hw])
        rw [List.intercalate_cons_cons, List.map_append, List.map_append, hrest]
        simp only [List.map_cons, List.intercalate_cons_cons]
        rfl
  rw [hmap]
  refine words_of_intercalate fun text htext => ?_
  obtain ⟨word, hword, rfl⟩ := List.mem_map.mp htext
  refine ⟨by simpa using (h word hword).some, fun hspace => ?_⟩
  obtain ⟨c, hc, hcs⟩ := List.mem_map.mp hspace
  exact (h word hword).together (char_of_space.mp hcs ▸ hc)

/-- A line at the prompt does what its words ask for, and the words of a line
that is typed with a space between each two are the words that were typed. -/
theorem command_line (fuel : Nat) (session : Session) (rest : List (BitVec 8)) :
    (∀ line, PlainLine 1024 line →
      cliRun (fuel + 1) session (line ++ newline :: rest) =
        obey fuel session (line.map charOf) >>= goOnWith (fuel + 1) rest) ∧
    ∀ words : List (List (BitVec 8)), (∀ word ∈ words, IsWord word) →
      wordsOf (([32].intercalate words).map charOf) = words.map (·.map charOf) := by
  refine ⟨fun line h => ?_, fun words => words_of_typed⟩
  rw [cli_run_line h, dispatch_obeys]

end RiscvVm.Proofs
