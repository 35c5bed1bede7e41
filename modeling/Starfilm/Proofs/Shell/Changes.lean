import Mathlib.Logic.Relation
import Starfilm.Proofs.Disk.Ways
import Starfilm.Proofs.Film.Encoder
import Starfilm.Proofs.Results
import Starfilm.Shell.Run

/-!
# What scripts do to a disk

Whatever a script does to a disk, it does by the operations of the disk, one after the other
(`Disk.Change`): by redirections, or by tools (`Shell.launch_reaches`). None of them tears a tree
apart. So a film may be made by a script, and the disk is a tree afterwards
(`ExternalEncoder.isTree_assemble`), as the next pass over the frames asks for.
-/

namespace Starfilm

namespace Disk

/-- One operation that changes a disk. -/
inductive Change (d : Disk) : Disk → Prop
  | write {p : Path} {c : Content} {e : Disk} (h : d.write p c = .ok e) : Change d e
  | createDirectory {p : Path} {e : Disk} (h : d.createDirectory p = .ok e) : Change d e
  | createDirectories (p : Path) : Change d (createDirectories p d).2
  | removeFile {p : Path} {e : Disk} (h : d.removeFile p = .ok e) : Change d e
  /-- The root stays. -/
  | eraseTree (n : Name) (p : Place) : Change d (d.eraseTree (n :: p))

/-- One disk becomes the other by some operations. -/
abbrev Reaches : Disk → Disk → Prop := Relation.ReflTransGen Change

/-- A fold over steps that change a disk by operations only changes it so. -/
theorem foldl_reaches {S A : Type} (disk : S → Disk) {f : S → A → S}
    (hf : ∀ s a, Reaches (disk s) (disk (f s a))) (as : List A) (s : S) :
    Reaches (disk s) (disk (as.foldl f s)) := by
  induction as generalizing s with
  | nil => exact .refl
  | cons a as ih => exact (hf s a).trans (ih (f s a))

/-! ## Trees stay trees -/

theorem node?_eraseTree (d : Disk) (p q : Place) :
    (d.eraseTree p).node? q = if isWithin p q = true then none else d.node? q := by
  simp only [node?, eraseTree, List.find?_filter]
  split_ifs with hwithin
  · rw [Option.map_eq_none_iff, List.find?_eq_none]
    intro e _
    by_cases hplace : e.1 = q
    · simp [hplace, hwithin]
    · simp [hplace]
  · congr 2
    funext e
    by_cases hplace : e.1 = q
    · simp [hplace, hwithin]
    · simp [hplace]

theorem IsTree.eraseTree {d : Disk} (ht : d.IsTree) (n : Name) (p : Place) :
    (d.eraseTree (n :: p)).IsTree := by
  have hroot : isWithin (n :: p) [] = false := by simp [isWithin]
  refine ⟨by rw [node?_eraseTree, hroot]; exact ht.root, fun {q x} hq => ?_⟩
  rw [node?_eraseTree] at hq
  split_ifs at hq with hwithin
  cases q with
  | nil => exact trivial
  | cons m q =>
    obtain ⟨hm, hdir⟩ := ht.attached hq
    refine ⟨hm, ?_⟩
    -- what is around a place that is left is left too
    have hout : ¬isWithin (n :: p) q = true := by
      simp only [isWithin, List.isSuffixOf_iff_suffix] at hwithin ⊢
      exact fun hsuffix => hwithin (hsuffix.trans (List.suffix_cons m q))
    rw [node?_eraseTree, if_neg hout, hdir]

/-- An operation makes a tree of a tree. -/
theorem Change.isTree {d e : Disk} (h : Change d e) (ht : d.IsTree) : e.IsTree := by
  cases h with
  | write h => exact isTree_write ht h
  | createDirectory h => exact (createDirectory_grows ht h).1
  | createDirectories p => exact (createDirectories_grows ht p).1
  | removeFile h => exact isTree_removeFile ht h
  | eraseTree n p => exact ht.eraseTree n p

theorem Reaches.isTree {d e : Disk} (h : Reaches d e) (ht : d.IsTree) : e.IsTree := by
  induction h with
  | refl => exact ht
  | tail _ hchange ih => exact hchange.isTree ih

end Disk

open Disk (Reaches Change foldl_reaches)

open Relation (ReflTransGen)

namespace Shell

/-! ## Tools -/

theorem changeAll_reaches {f : Disk → Path → Except Disk.Fault Disk}
    (hf : ∀ {d p e}, f d p = .ok e → Reaches d e) (paths : List (List Char)) (d : Disk) :
    Reaches d (changeAll f paths d).disk := by
  unfold changeAll
  refine foldl_reaches ToolResult.disk (fun r p => ?_) paths ⟨0, [], d⟩
  cases hp : f r.disk ⟨p⟩ with
  | ok e => exact hf hp
  | error _ => exact .refl

/-- **Tools change a disk by its operations only.** -/
theorem tool?_reaches {name : String} {args : List (List Char)} {text : List Char} {d : Disk}
    {r : ToolResult} (h : tool? name args text d = some r) : Reaches d r.disk := by
  unfold tool? at h
  dsimp only at h
  split at h
  -- `touch`, `mkdir`, `rm` and `cp`; all others only write
  case h_10 =>
    obtain rfl := Option.some.inj h
    refine changeAll_reaches (fun {d p e} he => ?_) _ _
    split at he
    · obtain rfl := Except.ok.inj he
      exact .refl
    · exact .single (.write he)
  case h_11 =>
    split_ifs at h <;> obtain rfl := Option.some.inj h
    · refine foldl_reaches ToolResult.disk (fun r p => ?_) _ ⟨0, [], d⟩
      have hchange := Change.createDirectories (d := r.disk) ⟨p⟩
      rcases hp : Disk.createDirectories ⟨p⟩ r.disk with ⟨_ | _, e⟩ <;> rw [hp] at hchange
      · exact .single hchange
      · exact .single hchange
    · exact changeAll_reaches (fun he => .single (.createDirectory he)) _ _
  case h_12 =>
    split_ifs at h <;> obtain rfl := Option.some.inj h
    · refine changeAll_reaches (fun {d p e} he => ?_) _ _
      obtain ⟨⟨place, x⟩, -, hplace⟩ := except_bind_eq_ok_iff.1 he
      cases place with
      | nil => cases hplace
      | cons n q =>
        obtain rfl := Except.ok.inj hplace
        exact .single (.eraseTree n q)
    · exact changeAll_reaches (fun he => .single (.removeFile he)) _ _
  case h_13 =>
    split at h
    · obtain rfl := Option.some.inj h
      refine changeAll_reaches (fun {d p e} he => ?_) _ _
      obtain ⟨c, -, hwrite⟩ := except_bind_eq_ok_iff.1 he
      exact .single (.write hwrite)
    · cases h
  case h_8 =>
    split at h <;> obtain rfl := Option.some.inj h <;> exact .refl
  case h_9 =>
    split_ifs at h
    obtain rfl := Option.some.inj h
    exact .refl
  case h_14 => cases h
  all_goals
    obtain rfl := Option.some.inj h
    exact .refl

/-! ## Scripts -/

/-- With so many rounds left, a shell changes the disk by its operations only. -/
structure ReachesWithin (n : ℕ) : Prop where
  expand (ps : List Piece) (f : Fields) (s : Session) : Reaches s.disk (expand n ps f s).2.disk
  expandAll (ws : List (List Piece)) (s : Session) : Reaches s.disk (expandAll n ws s).2.disk
  expandOne (w : List Piece) (s : Session) : Reaches s.disk (expandOne n w s).2.disk
  eval (c : Command) (text : List Char) (s : Session) :
    Reaches s.disk (eval n c text s).session.disk
  call (args : List (List Char)) (text : List Char) (s : Session) :
    Reaches s.disk (call n args text s).session.disk

section Step

variable {n : ℕ} (h : ReachesWithin n) (s : Session)

include h

theorem expand_reaches (ps : List Piece) (f : Fields) :
    Reaches s.disk (expand (n + 1) ps f s).2.disk := by
  cases ps with
  | nil => exact .refl
  | cons p ps =>
    cases p with
    | literal text quoted =>
      rw [expand]
      exact h.expand ps _ s
    | parameter name quoted =>
      rw [expand]
      split_ifs <;> exact h.expand ps _ s
    | output c quoted =>
      rw [expand]
      exact (h.eval c [] s).trans (h.expand ps _
        { s with disk := (eval n c [] s).session.disk, status := (eval n c [] s).session.status })

theorem expandAll_reaches (ws : List (List Piece)) :
    Reaches s.disk (expandAll (n + 1) ws s).2.disk := by
  cases ws with
  | nil => exact .refl
  | cons w ws =>
    rw [expandAll]
    exact (h.expand w _ s).trans (h.expandAll ws _)

theorem expandOne_reaches (w : List Piece) : Reaches s.disk (expandOne (n + 1) w s).2.disk := by
  rw [expandOne]
  exact h.expand w _ s

theorem simple_reaches (words : List (List Piece)) (text : List Char) :
    Reaches s.disk (eval (n + 1) (.simple words) text s).session.disk := by
  cases words with
  | nil => exact .refl
  | cons w rest =>
    rw [eval]
    dsimp only
    split
    · next name value _ =>
      exact (h.expandOne value s).trans (h.eval (.simple rest) text
        ((expandOne n value s).2.assign name (expandOne n value s).1))
    · exact (h.expandAll (w :: rest) s).trans (h.call _ text _)

theorem join_reaches (j : Joint) (a b : Command) (text : List Char) :
    Reaches s.disk (eval (n + 1) (.join j a b) text s).session.disk := by
  have hfirst := h.eval a text s
  have hboth := hfirst.trans (h.eval b text (eval n a text s).session)
  cases j with
  | next | and | or =>
    rw [eval]
    dsimp only
    split_ifs
    · exact hboth
    · exact hfirst
  | pipe =>
    rw [eval]
    have hpipe := hfirst.trans (h.eval (.nested b) (eval n a text s).output
      { s with disk := (eval n a text s).session.disk })
    split <;> exact hpipe

theorem negate_reaches (a : Command) (text : List Char) :
    Reaches s.disk (eval (n + 1) (.negate a) text s).session.disk := by
  rw [eval]
  dsimp only
  split_ifs <;> exact h.eval a text s

theorem nested_reaches (a : Command) (text : List Char) :
    Reaches s.disk (eval (n + 1) (.nested a) text s).session.disk := by
  rw [eval]
  dsimp only
  split <;> exact h.eval a text s

theorem branch_reaches (test yes no : Command) (text : List Char) :
    Reaches s.disk (eval (n + 1) (.branch test yes no) text s).session.disk := by
  have htest := h.eval test text s
  rw [eval]
  dsimp only
  split_ifs
  · exact htest.trans (h.eval yes text { (eval n test text s).session with status := 0 })
  · exact htest.trans (h.eval no text { (eval n test text s).session with status := 0 })
  · exact htest

theorem loop_reaches (test : Command) (whileTrue : Bool) (body : Command) (text : List Char) :
    Reaches s.disk (eval (n + 1) (.loop test whileTrue body) text s).session.disk := by
  have htest := h.eval test text s
  have hround := htest.trans (h.eval body text (eval n test text s).session)
  rw [eval]
  dsimp only
  split_ifs
  · exact hround.trans (h.eval (.loop test whileTrue body) text _)
  · exact hround
  · exact htest
  · exact htest

theorem each_reaches (name : List Char) (words : List (List Piece)) (body : Command)
    (text : List Char) :
    Reaches s.disk (eval (n + 1) (.each name words body) text s).session.disk := by
  rw [eval]
  have hwords := h.expandAll words s
  rcases hexpand : expandAll n words s with ⟨values, s'⟩
  rw [hexpand] at hwords
  refine hwords.trans (foldl_reaches (fun r : Result => r.session.disk) (fun r v => ?_) values
    ⟨{ s' with status := 0 }, [], .onward⟩)
  split_ifs
  · exact h.eval body text (r.session.assign name v)
  · exact .refl

theorem redirect_reaches (a : Command) (stream : ℕ) (d : Direction) (file : List Piece)
    (text : List Char) :
    Reaches s.disk (eval (n + 1) (.redirect a stream d file) text s).session.disk := by
  rw [eval]
  have hname := h.expandOne file s
  rcases hexpand : expandOne n file s with ⟨name, s'⟩
  rw [hexpand] at hname
  cases d with
  | along =>
    dsimp only
    split_ifs <;> exact hname.trans (h.eval a text s')
  | «from» =>
    dsimp only
    split
    · exact hname.trans (h.eval a _ s')
    · exact hname
  | «over» | behind =>
    dsimp only
    split
    · exact hname
    · next e hopen =>
      have hbody := (hname.tail (.write hopen)).trans (h.eval a text { s' with disk := e })
      split
      · split
        · next e' hwrite => exact hbody.tail (.write hwrite)
        · exact hbody
      · exact hbody

theorem call_reaches (args : List (List Char)) (text : List Char) :
    Reaches s.disk (call (n + 1) args text s).session.disk := by
  cases args with
  | nil => exact .refl
  | cons name args =>
    rw [call.eq_def]
    dsimp only
    split
    -- all others are built into the shell
    case h_10 =>
      split_ifs
      · split
        · exact .refl
        · exact .refl
        · next c _ =>
          have hscript := h.eval c text ⟨s.disk, args, [], 0, s.tools⟩
          split <;> exact hscript
      · split
        · next r htool => exact tool?_reaches htool
        · exact .refl
      · exact .refl
    all_goals
      repeat' split
      all_goals exact .refl

end Step

/-- **A shell changes the disk by its operations only**, whatever it runs. -/
theorem reachesWithin (n : ℕ) : ReachesWithin n := by
  induction n with
  | zero =>
    exact ⟨fun _ _ _ => .refl, fun _ _ => .refl, fun _ _ => .refl, fun _ _ _ => .refl,
      fun _ _ _ => .refl⟩
  | succ n ih =>
    refine ⟨fun ps f s => expand_reaches ih s ps f, fun ws s => expandAll_reaches ih s ws,
      fun w s => expandOne_reaches ih s w, fun c text s => ?_,
      fun args text s => call_reaches ih s args text⟩
    cases c with
    | simple words => exact simple_reaches ih s words text
    | join j a b => exact join_reaches ih s j a b text
    | negate a => exact negate_reaches ih s a text
    | nested a => exact nested_reaches ih s a text
    | branch test yes no => exact branch_reaches ih s test yes no text
    | loop test whileTrue body => exact loop_reaches ih s test whileTrue body text
    | each name words body => exact each_reaches ih s name words body text
    | redirect a stream d file => exact redirect_reaches ih s a stream d file text
    | skip => exact .refl

/-- **Programs change a disk by its operations only.** -/
theorem launch_reaches (path : List Path) (tools : Bool) (program : Path) (args : List String)
    (d : Disk) : Reaches d (launch path tools program args d).2 := by
  unfold launch
  dsimp only
  split
  · next c _ => exact (reachesWithin maxDepth).eval c [] ⟨d, args.map String.toList, [], 0, tools⟩
  · split_ifs
    · split
      · next r htool => exact tool?_reaches htool
      · exact .refl
    · exact .refl

end Shell

/-- **A film may be made by a script.** The disk is a tree afterwards. -/
theorem ExternalEncoder.isTree_assemble (e : ExternalEncoder) (path : List Path) (tools : Bool)
    (frames : List Path) (output : Path) (fps : ℕ) {d : Disk} (ht : d.IsTree) :
    (((e.assembler (Shell.launch path tools)).assemble frames output fps d).2).IsTree := by
  cases hdir : framesDir? frames with
  | none =>
    simp only [assembler, hdir]
    exact ht
  | some dir =>
    rw [e.assembler_of_framesDir? hdir]
    exact (Shell.launch_reaches path tools _ _ d).isTree ht

end Starfilm
