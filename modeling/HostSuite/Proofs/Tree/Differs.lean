import HostSuite.Proofs.Path.Lexical
import HostSuite.Proofs.Tree.Frame

/-
  Trees that differ in files. Where one of two trees has a regular file or nothing, and the other
  has another file or nothing, no walk goes on from there in either. So the same paths lead to the
  same places (`Differs.resolve_iff`), and one of these places is a directory in both trees or in
  neither (`Differs.isDir_eq`). Only the reasons why a path leads nowhere can be different ones.
-/

namespace HostSuite.Tree

/-- Nothing or a regular file. -/
def IsLeaf (n : Option Node) : Prop := n = none ∨ ∃ content mode, n = some (.file content mode)

/-- Two trees have the same node at every place but those where `k` relates what they have. -/
def Differs (k : Place → Option Node → Option Node → Prop) (t t' : Tree) : Prop :=
  ∀ p, t'.lookup p = t.lookup p ∨ k p (t.lookup p) (t'.lookup p)

/-- At some places both trees may have any file or nothing. -/
def InLeaves (s : Place → Prop) (p : Place) (n n' : Option Node) : Prop :=
  s p ∧ IsLeaf n ∧ IsLeaf n'

theorem Differs.mono {k l : Place → Option Node → Option Node → Prop} {t t' : Tree}
    (hd : Differs k t t') (hkl : ∀ p n n', k p n n' → l p n n') : Differs l t t' :=
  fun p => (hd p).imp_right (hkl p _ _)

theorem Differs.refl (k : Place → Option Node → Option Node → Prop) (t : Tree) : Differs k t t :=
  fun _ => .inl rfl

section

variable {s : Place → Prop} {t t' : Tree}

theorem Differs.symm (hd : Differs (InLeaves s) t t') : Differs (InLeaves s) t' t := by
  intro p
  obtain h | ⟨hs, hn, hn'⟩ := hd p
  · exact .inl h.symm
  · exact .inr ⟨hs, hn', hn⟩

/-- Anything but a leaf is in both trees. -/
theorem Differs.lookup (hd : Differs (InLeaves s) t t') {p : Place} {n : Node}
    (hn : t.lookup p = some n) (hleaf : ¬IsLeaf (some n)) : t'.lookup p = some n := by
  obtain h | ⟨-, hl, -⟩ := hd p
  · rw [h, hn]
  · exact absurd (hn ▸ hl) hleaf

theorem not_isLeaf_dir (mode : Nat) : ¬IsLeaf (some (.dir mode)) := by
  rintro (h | ⟨content, m, h⟩) <;> cases h

theorem not_isLeaf_link (target : String) : ¬IsLeaf (some (.link target)) := by
  rintro (h | ⟨content, m, h⟩) <;> cases h

/-- A walk that gets somewhere does so in both trees. -/
theorem Differs.reaches (hd : Differs (InLeaves s) t t') {follow : Bool} {links : Nat}
    {here q : Place} {steps : List String} (hr : Reaches t follow links here steps q) :
    Reaches t' follow links here steps q := by
  have hsearch {here : Place} (hs : t.Searchable here) : t'.Searchable here := by
    obtain ⟨mode, hm, hb⟩ := hs
    exact ⟨mode, hd.lookup hm (not_isLeaf_dir mode), hb⟩
  induction hr with
  | stop links here => exact .stop links here
  | stay hs _ ih => exact .stay (hsearch hs) ih
  | up hs _ ih => exact .up (hsearch hs) ih
  | @down links here q step rest hs hn hl _ ih =>
    refine .down (hsearch hs) hn (fun target ht => ?_) ih
    exact hl target (hd.symm.lookup ht (not_isLeaf_link target))
  | halt hs hn hl hf => exact .halt (hsearch hs) hn (hd.lookup hl (not_isLeaf_link _)) hf
  | link hs hn hl hf _ ih => exact .link (hsearch hs) hn (hd.lookup hl (not_isLeaf_link _)) hf ih

variable {base : Place} {p : Path} {follow : Bool}

theorem Differs.resolve_iff (hd : Differs (InLeaves s) t t') {q : Place} :
    t'.resolve base p follow = .ok q ↔ t.resolve base p follow = .ok q := by
  rw [resolve_eq_ok_iff, resolve_eq_ok_iff]
  exact ⟨fun ⟨he, hz, hr⟩ => ⟨he, hz, hd.symm.reaches hr⟩,
    fun ⟨he, hz, hr⟩ => ⟨he, hz, hd.reaches hr⟩⟩

theorem isDir_eq_true_iff {t : Tree} :
    t.isDir base p = true ↔ ∃ q mode, t.find base p = .ok (q, .dir mode) := by
  unfold isDir
  split
  · rename_i q mode hf
    exact ⟨fun _ => ⟨q, mode, hf⟩, fun _ => rfl⟩
  · rename_i hf
    exact ⟨nofun, fun ⟨q, mode, h⟩ => absurd h (hf q mode)⟩

theorem Differs.find_dir (hd : Differs (InLeaves s) t t') {q : Place} {mode : Nat}
    (hf : t.find base p follow = .ok (q, .dir mode)) :
    t'.find base p follow = .ok (q, .dir mode) := by
  rw [find_eq_ok_iff] at hf ⊢
  exact ⟨hd.resolve_iff.mpr hf.1, hd.lookup hf.2 (not_isLeaf_dir mode)⟩

theorem Differs.isDir_eq (hd : Differs (InLeaves s) t t') : t'.isDir base p = t.isDir base p := by
  rw [Bool.eq_iff_iff, isDir_eq_true_iff, isDir_eq_true_iff]
  exact ⟨fun ⟨q, mode, hf⟩ => ⟨q, mode, hd.symm.find_dir hf⟩,
    fun ⟨q, mode, hf⟩ => ⟨q, mode, hd.find_dir hf⟩⟩

end

/-! ## A name in a directory -/

/-- One more name, from where a walk got to; at its end a link is not followed, or there is none. -/
theorem Reaches.append_name {t : Tree} {follow : Bool} {links : Nat} {here q : Place}
    {front : List String} {name : String} (hr : Reaches t true links here front q)
    (hs : t.Searchable q) (hn : IsName name) (hl : t.NoLinkAt (q ++ [name])) :
    Reaches t follow links here (front ++ [name]) (q ++ [name]) := by
  induction hr with
  | stop links here => exact .down hs hn hl (.stop links _)
  | stay hs' _ ih => exact .stay hs' (ih hs hl)
  | up hs' _ ih => exact .up hs' (ih hs hl)
  | down hs' hn' hl' _ ih => exact .down hs' hn' hl' (ih hs hl)
  | halt _ _ _ hf => cases hf
  | link hs' hn' hl' _ _ ih =>
    have := ih hs hl
    rw [List.append_assoc] at this
    exact .link hs' hn' hl' (by simp) this

/-- A walk with links followed is one along its first steps and then one along the others. -/
theorem Reaches.split {t : Tree} {links : Nat} {here q : Place} {front rest : List String}
    (hr : Reaches t true links here (front ++ rest) q) :
    ∃ p links', Reaches t true links here front p ∧ Reaches t true links' p rest q := by
  generalize hs : front ++ rest = steps at hr
  induction hr generalizing front with
  | stop links here =>
    obtain ⟨rfl, rfl⟩ := List.append_eq_nil_iff.mp hs
    exact ⟨here, links, .stop links here, .stop links here⟩
  | @stay links here q steps hs' hr ih =>
    cases front with
    | nil => exact ⟨here, links, .stop links here, by cases hs; exact .stay hs' hr⟩
    | cons step front =>
      obtain ⟨rfl, hrest⟩ := List.cons.inj hs
      obtain ⟨p, links', hp, hq⟩ := ih hrest
      exact ⟨p, links', .stay hs' hp, hq⟩
  | @up links here q steps hs' hr ih =>
    cases front with
    | nil => exact ⟨here, links, .stop links here, by cases hs; exact .up hs' hr⟩
    | cons step front =>
      obtain ⟨rfl, hrest⟩ := List.cons.inj hs
      obtain ⟨p, links', hp, hq⟩ := ih hrest
      exact ⟨p, links', .up hs' hp, hq⟩
  | @down links here q step steps hs' hn hl hr ih =>
    cases front with
    | nil => exact ⟨here, links, .stop links here, by cases hs; exact .down hs' hn hl hr⟩
    | cons next front =>
      obtain ⟨rfl, hrest⟩ := List.cons.inj hs
      obtain ⟨p, links', hp, hq⟩ := ih hrest
      exact ⟨p, links', .down hs' hn hl hp, hq⟩
  | halt _ _ _ hf => cases hf
  | @link links here q step target steps hs' hn hl hf hr ih =>
    cases front with
    | nil => exact ⟨here, links + 1, .stop _ here, by cases hs; exact .link hs' hn hl hf hr⟩
    | cons next front =>
      obtain ⟨rfl, rfl⟩ := List.cons.inj hs
      obtain ⟨p, links', hp, hq⟩ := ih (List.append_assoc _ front rest)
      exact ⟨p, links', .link hs' hn hl (fun _ => rfl) hp, hq⟩

theorem Reaches.of_stay {t : Tree} {follow : Bool} {links : Nat} {here q : Place}
    {rest : List String} (hr : Reaches t follow links here ("." :: rest) q) :
    Reaches t follow links here rest q := by
  have hwalk := walk_of_reaches hr
  rw [walk_eq] at hwalk
  rw [walkFrom_stay (walkFrom_cons_cases hwalk).1, ← walk_eq] at hwalk
  exact reaches_of_walk hwalk

/-- A path leads along its segments, whether it ends in a slash or not. -/
theorem reaches_segments {t : Tree} {base q : Place} {p : Path}
    (hr : t.resolve base p = .ok q) :
    Reaches t true maxLinks (walkStart base p) p.segments q := by
  obtain ⟨-, -, hreach⟩ := resolve_eq_ok_iff.mp hr
  unfold walkSteps at hreach
  split at hreach
  · obtain ⟨place, links, hplace, hstay⟩ := hreach.split
    cases hstay.of_stay
    exact hplace
  · exact hreach

/-- A name in a directory that a path leads to. -/
theorem resolve_join_name {t : Tree} {base q : Place} {p : Path} {name : String} {follow : Bool}
    (hr : t.resolve base p = .ok q) (hs : t.Searchable q) (hn : Path.IsPlain name)
    (hshort : name.utf8ByteSize ≤ maxNameBytes) (hnul : '\x00' ∉ name.toList)
    (hl : t.NoLinkAt (q ++ [name])) :
    t.resolve base (p.join name) follow = .ok (q ++ [name]) := by
  have hreach : Reaches t follow maxLinks (walkStart base p) (p.segments ++ [name]) (q ++ [name]) :=
    (reaches_segments hr).append_name hs ⟨hn.ne_dot, hn.ne_dots, hshort⟩ hl
  obtain ⟨he, hz, -⟩ := resolve_eq_ok_iff.mp hr
  have hstart : walkStart base (p.join name) = walkStart base p := by
    unfold walkStart
    rw [Path.isAbsolute_join_eq he hn]
  have hsteps : walkSteps (p.join name) = p.segments ++ [name] := by
    unfold walkSteps
    rw [Path.endsInSlash_join p hn, if_neg (by simp),
      Path.segments_join p (Path.head_ne_slash hn.no_slash), hn.segments]
  rw [resolve_eq_ok_iff, hstart, hsteps]
  refine ⟨?_, ?_, hreach⟩
  · obtain ⟨front, hf⟩ := Path.text_join p name
    simp [hf, hn.ne_empty]
  · intro hmem
    obtain h | h | h := Path.of_mem_text_join hmem
    · exact hz h
    · exact hnul h
    · cases h

end HostSuite.Tree
