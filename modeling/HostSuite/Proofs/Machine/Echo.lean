import HostSuite.Command

/-
  Echoes of commands, read back. A program without spaces and quotes stands for itself in an echo,
  and so does an argument without spaces; quotes are put around the others. So a reader that goes
  through an echo and keeps track of whether it is inside quotes finds the end of each word where
  the word ends (`echoWordsFrom_echoArg`), and the words of the echo are those of the command
  (`echo_reads_back`).
-/

namespace HostSuite.Command

/-- The program and the arguments of the command. -/
def words (c : Command) : List String := c.program :: c.args

/-- No word of the command is empty or holds a quote, and there is no space in its program. -/
structure Legible (c : Command) : Prop where
  nonempty : ∀ w ∈ c.words, w ≠ ""
  unquoted : ∀ w ∈ c.words, '"' ∉ w.toList
  unbroken : ' ' ∉ c.program.toList

/-- Characters at which the reader neither cuts nor turns are added to the word begun so far. -/
theorem echoWordsFrom_append {inQuotes : Bool} {w : List Char} (hq : '"' ∉ w)
    (hs : inQuotes = false → ' ' ∉ w) (word rest : List Char) :
    echoWordsFrom inQuotes word (w ++ rest) = echoWordsFrom inQuotes (word ++ w) rest := by
  induction w generalizing word with
  | nil => rw [List.append_nil, List.nil_append]
  | cons c w ih =>
    have hquote : c ≠ '"' := fun he => hq (he ▸ List.mem_cons_self)
    have hspace : (c = ' ' && !inQuotes) = false := by
      cases inQuotes with
      | true => simp
      | false =>
        have hc : c ≠ ' ' := fun he => hs rfl (he ▸ List.mem_cons_self)
        simp [hc]
    have hgo := ih (fun hw => hq (List.mem_cons_of_mem c hw))
      (fun hf hw => hs hf (List.mem_cons_of_mem c hw)) (word ++ [c])
    rw [List.cons_append, echoWordsFrom, if_neg hquote, hspace, if_neg Bool.false_ne_true, hgo,
      List.append_assoc, List.singleton_append]

/-- The space in front of an argument ends the word before it, and the argument is the next word,
in quotes or not. -/
theorem echoWordsFrom_echoArg {a : String} (ha : '"' ∉ a.toList) (word rest : List Char) :
    echoWordsFrom false word (' ' :: (echoArg a ++ rest)) =
      word :: echoWordsFrom false a.toList rest := by
  have hcut : echoWordsFrom false word (' ' :: (echoArg a ++ rest)) =
      word :: echoWordsFrom false [] (echoArg a ++ rest) := by
    rw [echoWordsFrom, if_neg (by decide), if_pos (by decide)]
  rw [hcut]
  congr 1
  unfold echoArg
  by_cases hspace : a.toList.contains ' ' = true
  · have hquotes : ('"' :: a.toList ++ ['"']) ++ rest = '"' :: (a.toList ++ '"' :: rest) := by simp
    have hinside : true = false → ' ' ∉ a.toList := nofun
    rw [if_pos hspace, hquotes, echoWordsFrom, if_pos rfl, Bool.not_false,
      echoWordsFrom_append ha hinside, List.nil_append, echoWordsFrom, if_pos rfl, Bool.not_true]
  · have hnone : ' ' ∉ a.toList := by simpa using hspace
    rw [if_neg hspace, echoWordsFrom_append ha fun _ => hnone, List.nil_append]

/-- Over the arguments: each one ends the word before it. -/
theorem echoWordsFrom_args {as : List String} (has : ∀ a ∈ as, '"' ∉ a.toList)
    (word : List Char) :
    echoWordsFrom false word (as.flatMap fun a => ' ' :: echoArg a) =
      word :: as.map String.toList := by
  induction as generalizing word with
  | nil => rfl
  | cons a as ih =>
    rw [List.flatMap_cons, List.cons_append, echoWordsFrom_echoArg (has a List.mem_cons_self),
      ih fun b hb => has b (List.mem_cons_of_mem a hb), List.map_cons]

theorem echoWords_echo {c : Command} (hq : ∀ w ∈ c.words, '"' ∉ w.toList)
    (hs : ' ' ∉ c.program.toList) : echoWords c.echo = c.words := by
  have hback : (c.args.map String.toList).map String.ofList = c.args := by simp
  unfold echoWords echo echoChars
  rw [String.toList_ofList, echoWordsFrom_append (hq _ List.mem_cons_self) fun _ => hs,
    List.nil_append, echoWordsFrom_args fun a ha => hq a (List.mem_cons_of_mem _ ha),
    List.map_cons, String.ofList_toList, hback]
  rfl

/-- Cut at the spaces outside quotes, and without its quotes, the echo of a legible command is its
program and then its arguments, in order. No word that is found is empty, so it makes no difference
whether several spaces cut once or several times. Hence legible commands with the same echo have the
same program and the same arguments. -/
theorem echo_reads_back {c : Command} (hc : c.Legible) :
    echoWords c.echo = c.program :: c.args ∧
      (echoWords c.echo).filter (· ≠ "") = c.program :: c.args ∧
      ∀ c' : Command, c'.Legible → c'.echo = c.echo →
        c'.program = c.program ∧ c'.args = c.args := by
  have hread {d : Command} (hd : d.Legible) : echoWords d.echo = d.words :=
    echoWords_echo hd.unquoted hd.unbroken
  refine ⟨hread hc, ?_, ?_⟩
  · rw [hread hc]
    apply List.filter_eq_self.mpr
    intro w hw
    simpa using hc.nonempty w hw
  · intro c' hc' he
    have hwords : c'.words = c.words := by rw [← hread hc', he, hread hc]
    exact List.cons.inj hwords

/-- A command with an argument of spaces only, one with spaces at both ends and one with a tab. -/
def titled : Command :=
  (Command.new "genhtml" ⟨"/"⟩).addArgs ["unified.info", "--title", " ", " Host Test ", "a\tb"]

theorem legible_titled : titled.Legible where
  nonempty := by decide
  unquoted := by decide
  unbroken := by decide

theorem echo_reads_back_titled :
    titled.Legible ∧
      titled.echo = "genhtml unified.info --title \" \" \" Host Test \" a\tb" ∧
      echoWords titled.echo = ["genhtml", "unified.info", "--title", " ", " Host Test ", "a\tb"] :=
  ⟨legible_titled, by decide, (echo_reads_back legible_titled).1⟩

end HostSuite.Command
