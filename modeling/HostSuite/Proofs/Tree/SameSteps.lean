import HostSuite.Proofs.Tree.Differs

/-
  Absolute paths that are written differently. Doubled slashes do not count: two absolute paths with
  the same segments lead to the same place, as long as both end in a slash or neither does
  (`find_eq_of_segments`). A slash at the end only asks for a directory that may be searched, so a
  path of which one knows where its segments lead finds what is there (`find_of_reaches`).
-/

namespace HostSuite

namespace Tree

variable {t : Tree}

/-! ## Walks put together -/

/-- A walk goes on from where it got to, however many links it followed. -/
theorem Reaches.append {follow : Bool} {links : Nat} {here p q : Place} {front rest : List String}
    (hr : Reaches t true links here front p) (hne : rest ≠ [])
    (hrest : ∀ links', Reaches t follow links' p rest q) :
    Reaches t follow links here (front ++ rest) q := by
  induction hr with
  | stop links here => exact hrest links
  | stay hs _ ih => exact .stay hs (ih hrest)
  | up hs _ ih => exact .up hs (ih hrest)
  | down hs hn hl _ ih => exact .down hs hn hl (ih hrest)
  | halt _ _ _ hf => cases hf
  | link hs hn hl _ _ ih =>
    have hgo := ih hrest
    rw [List.append_assoc] at hgo
    exact .link hs hn hl (fun hnil => absurd (List.append_eq_nil_iff.mp hnil).2 hne) hgo

/-- Steps are only taken from where steps may be taken. -/
theorem Reaches.searchable {follow : Bool} {links : Nat} {here q : Place} {step : String}
    {rest : List String} (hr : Reaches t follow links here (step :: rest) q) :
    t.Searchable here := by
  cases hr <;> assumption

/-- A walk that gets to something begins at something. -/
theorem Reaches.lookup_isSome {follow : Bool} {links : Nat} {here q : Place} {steps : List String}
    (hr : Reaches t follow links here steps q) (hq : (t.lookup q).isSome = true) :
    (t.lookup here).isSome = true := by
  cases steps with
  | nil =>
    cases hr
    exact hq
  | cons step rest =>
    obtain ⟨mode, hd, -⟩ := hr.searchable
    rw [hd]
    rfl

/-- There is one place only that a walk gets to. -/
theorem Reaches.unique {follow : Bool} {links : Nat} {here p q : Place} {steps : List String}
    (hp : Reaches t follow links here steps p) (hq : Reaches t follow links here steps q) : p = q :=
  Except.ok.inj ((walk_of_reaches hp).symm.trans (walk_of_reaches hq))

/-! ## Paths -/

theorem text_ne_nil_of_absolute {p : Path} (hp : p.isAbsolute = true) : p.text.toList ≠ [] := by
  intro hnil
  unfold Path.isAbsolute at hp
  rw [hnil] at hp
  cases hp

theorem walkStart_absolute {base : Place} {p : Path} (hp : p.isAbsolute = true) :
    walkStart base p = [] :=
  if_pos hp

theorem resolve_absolute {base : Place} {p : Path} {follow : Bool} (hp : p.isAbsolute = true) :
    t.resolve base p follow =
      if p.text.toList.contains '\x00' then .error .holdsNul
      else walk t follow maxLinks [] (walkSteps p) := by
  have hempty : ¬ p.text.toList.isEmpty = true := by
    rw [List.isEmpty_iff]
    exact text_ne_nil_of_absolute hp
  unfold resolve
  rw [if_neg hempty, walkStart_absolute hp]

/-- What is found depends on the segments and on a slash at the end. -/
theorem find_eq_of_segments {base : Place} {p p' : Path} {follow : Bool}
    (hp : p.isAbsolute = true) (hp' : p'.isAbsolute = true) (hs : p'.segments = p.segments)
    (he : p'.endsInSlash = p.endsInSlash) :
    t.find base p' follow = t.find base p follow := by
  have hsteps : walkSteps p' = walkSteps p := by
    unfold walkSteps
    rw [hs, he]
  have hz : p'.text.toList.contains '\x00' = p.text.toList.contains '\x00' := by
    rw [Bool.eq_iff_iff, List.contains_iff_mem, List.contains_iff_mem,
      Path.mem_text_iff (by decide), Path.mem_text_iff (by decide), hs]
  unfold find
  rw [resolve_absolute hp, resolve_absolute hp', hz, hsteps]

/-- An absolute path finds what is where its segments lead. -/
theorem find_of_reaches {base q : Place} {p : Path} {n : Node} (hp : p.isAbsolute = true)
    (hz : ∀ s ∈ p.segments, '\x00' ∉ s.toList) (hr : Reaches t true maxLinks [] p.segments q)
    (hn : t.lookup q = some n) (hs : p.endsInSlash = true → t.Searchable q) :
    t.find base p = .ok (q, n) := by
  have hclean : '\x00' ∉ p.text.toList := by
    rw [Path.mem_text_iff (by decide)]
    rintro ⟨s, hs, hmem⟩
    exact hz s hs hmem
  refine find_eq_ok_iff.mpr ⟨resolve_eq_ok_iff.mpr ⟨text_ne_nil_of_absolute hp, hclean, ?_⟩, hn⟩
  rw [walkStart_absolute hp]
  unfold walkSteps
  split
  · rename_i he
    exact hr.append (by simp) fun links => .stay (hs he) (.stop links q)
  · exact hr

end Tree

end HostSuite
