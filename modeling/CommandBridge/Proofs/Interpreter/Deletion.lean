/-
# Delete procedures

A command may come with a delete procedure.  It is in the table of its interpreter until it
is deleted, replaced or disposed of, and renaming takes it along.  A ledger is kept on the
commands with certain delete procedures (`Ledger`): how many have been created so far and
how many of their delete procedures have begun.

What has been created and has not begun stands in the table, or it has just been taken out
and is about to be called; only a disposal takes out more than one at a time
(`Deletion.Owing`).  That is an invariant of every operation, so between the calls of the
host what is not in the table has had its delete procedure called, once each
(`Machine.Watched.deleted_once`).

There is one way out.  The delete procedure of a command that is being replaced may create a
command of that name itself; what replaces the first command is then put over the second one,
whose delete procedure never runs (`Deletion.overwritten`).
-/

import CommandBridge.Proofs.Interpreter.Disposal
import CommandBridge.Proofs.Run.Monitor

namespace CommandBridge

/-! ### Commands with certain delete procedures -/

namespace Commands

variable {p : DeleteAction → Bool} {cs : Commands} {name : String} {c : Command}

/-- The number of commands whose delete procedure is one of those that `p` picks out. -/
def standing (p : DeleteAction → Bool) (cs : Commands) : Nat :=
  cs.toList.countP fun e => e.2.onDelete.any p

theorem nodup_toList (cs : Commands) : cs.toList.Nodup := by
  refine Std.ExtTreeMap.distinct_keys_toList.imp fun {a b} hne he => hne ?_
  rw [he]
  exact Std.ReflCmp.compare_self

/-- A table is one of its commands and the rest. -/
theorem toList_perm (h : cs[name]? = some c) :
    cs.toList.Perm ((name, c) :: (cs.erase name).toList) := by
  have hrest : (name, c) ∉ (cs.erase name).toList := by
    rw [Std.ExtTreeMap.mem_toList_iff_getElem?_eq_some, getElem?_erase_name, if_pos rfl]
    exact nofun
  refine (List.perm_ext_iff_of_nodup cs.nodup_toList
    (List.nodup_cons.2 ⟨hrest, nodup_toList _⟩)).2 fun ⟨key, d⟩ => ?_
  rw [List.mem_cons, Std.ExtTreeMap.mem_toList_iff_getElem?_eq_some,
    Std.ExtTreeMap.mem_toList_iff_getElem?_eq_some, getElem?_erase_name, Prod.mk.injEq]
  by_cases hkey : name = key
  · subst hkey
    rw [if_pos rfl, h, Option.some.injEq]
    exact ⟨fun he => .inl ⟨rfl, he.symm⟩, fun he => he.elim (fun he => he.2.symm) nofun⟩
  · rw [if_neg hkey]
    exact ⟨.inr, fun he => he.resolve_left fun he => hkey he.1.symm⟩

theorem standing_of_getElem? (h : cs[name]? = some c) :
    standing p cs = standing p (cs.erase name) + (c.onDelete.any p).toNat := by
  rw [standing, (toList_perm h).countP_eq, List.countP_cons, standing]
  cases c.onDelete.any p <;> rfl

/-- A command that is taken out does not stand any more. -/
theorem standing_erase (p : DeleteAction → Bool) (cs : Commands) (name : String) :
    standing p (cs.erase name) + ((cs[name]?.bind (·.onDelete)).any p).toNat =
      standing p cs := by
  cases h : cs[name]? with
  | none => rw [erase_of_getElem? h]; rfl
  | some c => exact (standing_of_getElem? h).symm

/-- A command that is put under a name stands in the place of what stood there. -/
theorem standing_insert (p : DeleteAction → Bool) (cs : Commands) (name : String) (c : Command) :
    standing p (cs.insert name c) = standing p (cs.erase name) + (c.onDelete.any p).toNat := by
  have hput : (cs.insert name c)[name]? = some c := by rw [getElem?_insert_name, if_pos rfl]
  rw [standing_of_getElem? hput, erase_insert]

theorem standing_empty : standing p ∅ = 0 := by
  refine List.countP_eq_zero.2 fun e he => ?_
  exact nomatch Std.ExtTreeMap.getElem?_empty.symm.trans
    (Std.ExtTreeMap.mem_toList_iff_getElem?_eq_some.1 he)

/-- Built-in commands have no delete procedures. -/
theorem standing_builtinCommands : standing p Interpreter.builtinCommands = 0 := by
  refine List.foldlRecOn (motive := fun cs => standing p cs = 0) Builtin.named _
    standing_empty fun cs hcs b _ => ?_
  have := standing_erase p cs b.1
  rw [standing_insert]
  change _ + 0 = 0
  omega

end Commands

namespace World

/-- The number of commands of an interpreter with such a delete procedure. -/
def standing (p : DeleteAction → Bool) (i : Nat) (w : World) : Nat :=
  Commands.standing p (w.interpreter i).commands

/-- The world without a command in the table of an interpreter. -/
def withoutCommand (w : World) (i : Nat) (name : String) : World :=
  w.withInterpreter i fun s => { s with commands := s.commands.erase name }

/-- The world with a command in the table of an interpreter. -/
def withCommand (w : World) (i : Nat) (name : String) (c : Command) : World :=
  w.withInterpreter i fun s => { s with commands := s.commands.insert name c }

variable {w : World} {i j : Nat} {name : String} {c : Command}

theorem commands_withoutCommand :
    ((w.withoutCommand i name).interpreter i).commands =
      (w.interpreter i).commands.erase name := by
  rw [withoutCommand, interpreter_withInterpreter_self]

theorem commands_withCommand :
    ((w.withCommand i name c).interpreter i).commands =
      (w.interpreter i).commands.insert name c := by
  rw [withCommand, interpreter_withInterpreter_self]

theorem disposed_withoutCommand :
    ((w.withoutCommand j name).interpreter i).disposed = (w.interpreter i).disposed :=
  apply_withInterpreter (·.disposed) rfl i

theorem disposed_withCommand :
    ((w.withCommand j name c).interpreter i).disposed = (w.interpreter i).disposed :=
  apply_withInterpreter (·.disposed) rfl i

end World

/-! ### The ledger -/

/-- How many commands with certain delete procedures have been created, and how many of their
delete procedures have begun. -/
structure Ledger where
  created : Nat := 0
  begun : Nat := 0

/-- With this change the delete procedure begins: it logs itself or drops its function. -/
def DeleteAction.Begins : DeleteAction → World → World → Prop
  | .forget handle key, w, w' =>
    w' = w.withHandle handle fun h => { h with functions := h.functions.erase key }
  | .scripted label _, w, w' => w' = w.log (.deleted label)

/-- With this change of the call one of the delete procedures of the interpreter begins. -/
def Call.Begins (p : DeleteAction → Bool) (i : Nat) (c : Call) (w w' : World) : Prop :=
  ∃ action, c = .deleted i action ∧ p action = true ∧ action.Begins w w'

/-- The ledger goes along with a change of the call.  A command that comes to stand has been
created, unless it is renamed.  A command that is put over an equal one is not noted: the table
is what it was. -/
structure Ledger.Records (p : DeleteAction → Bool) (i : Nat) (c : Call) (s : Ledger) (w : World)
    (s' : Ledger) (w' : World) : Prop where
  created : ¬c.IsRenaming → s'.created = s.created + (w'.standing p i - w.standing p i)
  renamed : c.IsRenaming → s'.created = s.created
  begun : c.Begins p i w w' → s'.begun = s.begun + 1
  others : ¬c.Begins p i w w' → s'.begun = s.begun

/-- There is a ledger for every change, so keeping one restricts no run. -/
theorem Ledger.exists_records (p : DeleteAction → Bool) (i : Nat) (c : Call) (s : Ledger)
    (w w' : World) : ∃ s', Ledger.Records p i c s w s' w' := by
  classical
  let created := if c.IsRenaming then s.created
    else s.created + (w'.standing p i - w.standing p i)
  let begun := if c.Begins p i w w' then s.begun + 1 else s.begun
  exact ⟨⟨created, begun⟩, fun hc => if_neg hc, fun hc => if_pos hc, fun hb => if_pos hb,
    fun hb => if_neg hb⟩

/-- The change puts nothing in the place of a command with such a delete procedure, and no
command with one into an interpreter that has been disposed of. -/
structure World.Unforced (p : DeleteAction → Bool) (i : Nat) (w w' : World) : Prop where
  place : ∀ (name : String) (c c' : Command), (w.interpreter i).commands[name]? = some c →
    c.onDelete.any p = true → (w'.interpreter i).commands[name]? = some c' → c' = c
  sealed : (w.interpreter i).disposed = true → w'.standing p i ≤ w.standing p i

/-- The runs in which nothing is put over a command that nobody has taken out.  The monitor
keeps the ledger. -/
def deletions (p : DeleteAction → Bool) (i : Nat) : Monitor Ledger where
  calls cs c _ _ := cs = [] → ∀ action, c ≠ .deleted i action
  changes _ c s w s' w' := Ledger.Records p i c s w s' w' ∧ w.Unforced p i w'

/-- One if a command of the interpreter `i` has one of the delete procedures that `p` picks
out, for what may be the delete procedure of a command of the interpreter `j`. -/
def dueOf (p : DeleteAction → Bool) (i j : Nat) (action : Option DeleteAction) : Nat :=
  if j = i then (action.any p).toNat else 0

/-- One if the call is to one of the delete procedures of the interpreter. -/
def Call.due (p : DeleteAction → Bool) (i : Nat) : Call → Nat
  | .deleted j action => dueOf p i j (some action)
  | _ => 0

namespace Deletion

variable {p : DeleteAction → Bool} {i j n d : Nat} {cs : List Call} {c : Call} {α : Type}
  {s s' : Ledger} {w w' : World}

/-- So many delete procedures have still to be called, besides those that are due now.  They
are those of a disposal. -/
structure Owing (p : DeleteAction → Bool) (i n d : Nat) (s : Ledger) (w : World) : Prop where
  balance : s.created = s.begun + w.standing p i + n + d
  prompt : (w.interpreter i).disposed = false → n = 0
  sealed : (w.interpreter i).disposed = true → w.standing p i = 0

/-- A call that is to be made to a delete procedure is made at once, and what is owed
otherwise is owed afterwards. -/
def contract (p : DeleteAction → Bool) (i : Nat) : (deletions p i).Contract where
  Pre _ c s w := ∃ n, Owing p i n (c.due p i) s w
  Post _ c s w s' w' := ∃ n, Owing p i n (c.due p i) s w ∧ Owing p i n 0 s' w'
  Change _ _ s' w' := s'.begun + w'.standing p i ≤ s'.created

/-- Programs of the call `c`, which is to none of the delete procedures, that keep what is
owed. -/
abbrev Keeping (p : DeleteAction → Bool) (i : Nat) (cs : List Call) (c : Call) :
    Program.Property :=
  fun _ q => c.due p i = 0 → ∀ n, q.Takes (contract p i) cs c (Owing p i n 0) (Owing p i n 0)

theorem dueOf_none : dueOf p i j none = 0 :=
  ite_self 0

theorem dueOf_of_ne (hj : j ≠ i) (action : Option DeleteAction) : dueOf p i j action = 0 :=
  if_neg hj

theorem dueOf_eq_zero_or (p : DeleteAction → Bool) (i j : Nat) (action : Option DeleteAction) :
    dueOf p i j action = 0 ∨ (j = i ∧ action.any p = true) := by
  rw [dueOf]
  split
  · rename_i hj
    cases h : action.any p with
    | false => exact .inl rfl
    | true => exact .inr ⟨hj, rfl⟩
  · exact .inl rfl

theorem sequential : Program.Sequential (Keeping p i cs c) where
  pure b _ _ := .pure b
  bind hq hf hc n := .bind (hq hc n) fun b => hf b hc n
  get hk hc n := .get fun w => hk w hc n

theorem not_begins (hc : c.due p i = 0) : ¬c.Begins p i w w' := by
  rintro ⟨action, rfl, hp, -⟩
  rw [Call.due, dueOf, if_pos rfl, Option.any_some, hp] at hc
  cases hc

theorem Owing.le (h : Owing p i n d s w) : s.begun + w.standing p i ≤ s.created := by
  have := h.balance
  omega

/-- What is owed is told by the ledger and the table. -/
theorem Owing.unique {m : Nat} (h : Owing p i n d s w) (h' : Owing p i m d s w) : n = m := by
  have := h.balance
  have := h'.balance
  omega

/-! ### Changes of no account -/

/-- A change after which the same number of commands stands and nobody has been disposed
of. -/
structure Calm (p : DeleteAction → Bool) (i : Nat) (w w' : World) : Prop where
  standing : w'.standing p i = w.standing p i
  disposed : (w'.interpreter i).disposed = (w.interpreter i).disposed

theorem calm_of_eq (h : w'.interpreter i = w.interpreter i) : Calm p i w w' :=
  ⟨by rw [World.standing, World.standing, h], by rw [h]⟩

theorem calm_of_alike (h : w.Alike w') : Calm p i w w' :=
  ⟨congrArg (Commands.standing p) (h.commands i), h.disposed i⟩

theorem calm_withInterpreter (w : World) (j : Nat) {f : Interpreter → Interpreter}
    (hc : (f (w.interpreter j)).commands = (w.interpreter j).commands)
    (hd : (f (w.interpreter j)).disposed = (w.interpreter j).disposed) :
    Calm p i w (w.withInterpreter j f) :=
  ⟨World.apply_withInterpreter (fun s => Commands.standing p s.commands)
    (congrArg (Commands.standing p) hc) i, World.apply_withInterpreter (·.disposed) hd i⟩

theorem calm_withInterpreter_of_ne (w : World) (hj : j ≠ i) (f : Interpreter → Interpreter) :
    Calm p i w (w.withInterpreter j f) :=
  calm_of_eq (by rw [World.interpreter_withInterpreter, if_neg hj])

/-- A ledger does not note a change with which nothing comes to stand and no delete procedure
begins. -/
theorem records_same (h : Ledger.Records p i c s w s' w') (hb : ¬c.Begins p i w w')
    (hle : w'.standing p i ≤ w.standing p i) :
    s'.created = s.created ∧ s'.begun = s.begun := by
  refine ⟨?_, h.others hb⟩
  by_cases hc : c.IsRenaming
  · exact h.renamed hc
  · rw [h.created hc, Nat.sub_eq_zero_of_le hle, Nat.add_zero]

theorem Owing.calm (h : Owing p i n d s w) (hs : (deletions p i).changes cs c s w s' w')
    (hb : ¬c.Begins p i w w') (hw : Calm p i w w') : Owing p i n d s' w' := by
  obtain ⟨hcreated, hbegun⟩ := records_same hs.1 hb (Nat.le_of_eq hw.standing)
  refine ⟨?_, fun hd => h.prompt (hw.disposed.symm.trans hd), fun hd => ?_⟩
  · rw [hcreated, hbegun, hw.standing]
    exact h.balance
  · exact hw.standing.trans (h.sealed (hw.disposed.symm.trans hd))

theorem takes_calm {f : World → α × World} (hb : ∀ w, ¬c.Begins p i w (f w).2)
    (hf : ∀ w, Calm p i w (f w).2) :
    (Program.update f).Takes (contract p i) cs c (Owing p i n d) (Owing p i n d) :=
  .update fun _ w _ h hs => ⟨(h.calm hs (hb w) (hf w)).le, h.calm hs (hb w) (hf w)⟩

theorem keeping_calm {f : World → α × World} (hf : ∀ w, Calm p i w (f w).2) :
    Keeping p i cs c (Program.update f) :=
  fun hc _ => takes_calm (fun _ => not_begins hc) hf

theorem coarse : Program.Coarse (Keeping p i cs c) where
  toSequential := sequential
  update hf := keeping_calm fun w => calm_of_alike (hf w)

/-- Whatever is no interpreter may be changed. -/
theorem keeping_modify {f : World → World} (hf : ∀ w, (f w).interpreters = w.interpreters) :
    Keeping p i cs c (Program.modify f) :=
  keeping_calm (f := fun w => ((), f w)) fun w => calm_of_eq (World.interpreter_congr (hf w) i)

theorem keeping_modifyInterpreter {f : Interpreter → Interpreter}
    (hf : ∀ s, (f s).commands = s.commands ∧ (f s).disposed = s.disposed) :
    Keeping p i cs c (Program.modifyInterpreter j f) :=
  keeping_calm (f := fun w => ((), w.withInterpreter j f)) fun w =>
    calm_withInterpreter w j (hf _).1 (hf _).2

/-- Another interpreter may be changed. -/
theorem keeping_modifyInterpreter_of_ne (hj : j ≠ i) (f : Interpreter → Interpreter) :
    Keeping p i cs c (Program.modifyInterpreter j f) :=
  keeping_calm (f := fun w => ((), w.withInterpreter j f)) fun w =>
    calm_withInterpreter_of_ne w hj f

/-! ### Calls -/

theorem takes_request (e : Call) :
    (Program.request e).Takes (contract p i) cs c (Owing p i n (e.due p i)) (Owing p i n 0) := by
  refine .request fun s w h _ => ⟨⟨n, h⟩, fun s' w' hpost => ?_⟩
  obtain ⟨m, hm, hm'⟩ := hpost
  rwa [h.unique hm]

theorem keeping_request {e : Call} (he : e.due p i = 0) :
    Keeping p i cs c (Program.request e) := by
  intro _ n
  have h : (Program.request e).Takes (contract p i) cs c (Owing p i n (e.due p i))
      (Owing p i n 0) := takes_request e
  rwa [he] at h

/-- A delete procedure that is due is called. -/
theorem takes_runDelete (j : Nat) (action : Option DeleteAction) :
    (Interp.runDelete j action).Takes (contract p i) cs c (Owing p i n (dueOf p i j action))
      (Owing p i n 0) := by
  cases action with
  | none =>
    rw [dueOf_none]
    exact .pure ()
  | some a => exact takes_request (.deleted j a)

/-- The delete procedures of another interpreter are not those that are counted. -/
theorem keeping_runDelete_of_ne (hj : j ≠ i) (action : Option DeleteAction) :
    Keeping p i cs c (Interp.runDelete j action) := by
  intro _ n s w h
  refine takes_runDelete j action s w ?_
  rw [dueOf_of_ne hj]
  exact h

/-! ### Creating and deleting commands -/

/-- What stands after a command has been taken out, and whether its delete procedure is due. -/
theorem standing_withoutCommand (p : DeleteAction → Bool) (i j : Nat) (w : World)
    (name : String) :
    (w.withoutCommand j name).standing p i +
      dueOf p i j ((w.interpreter j).commands[name]?.bind (·.onDelete)) = w.standing p i := by
  rw [dueOf]
  split
  · subst j
    rw [World.standing, World.commands_withoutCommand]
    exact Commands.standing_erase p _ name
  · rename_i hj
    exact (calm_withInterpreter_of_ne w hj _).standing

/-- What stands after a command has been put under a name. -/
theorem standing_withCommand (p : DeleteAction → Bool) (i j : Nat) (w : World) (name : String)
    (command : Command) :
    (w.withCommand j name command).standing p i +
      dueOf p i j ((w.interpreter j).commands[name]?.bind (·.onDelete)) =
        w.standing p i + dueOf p i j command.onDelete := by
  rw [dueOf, dueOf]
  split
  · subst j
    rw [World.standing, World.commands_withCommand, Commands.standing_insert, World.standing,
      ← Commands.standing_erase p (w.interpreter i).commands name]
    omega
  · rename_i hj
    exact (calm_withInterpreter_of_ne w hj _).standing

/-- A command is taken out, and its delete procedure is due. -/
theorem Owing.taken (h : Owing p i n 0 s w) (hc : c.due p i = 0) {name : String}
    (hs : (deletions p i).changes cs c s w s' (w.withoutCommand j name)) :
    Owing p i n (dueOf p i j ((w.interpreter j).commands[name]?.bind (·.onDelete))) s'
      (w.withoutCommand j name) := by
  have htaken := standing_withoutCommand p i j w name
  obtain ⟨hcreated, hbegun⟩ := records_same hs.1 (not_begins hc) (by omega)
  have hbalance := h.balance
  refine ⟨by omega, fun hd => h.prompt (World.disposed_withoutCommand.symm.trans hd),
    fun hd => ?_⟩
  have := h.sealed (World.disposed_withoutCommand.symm.trans hd)
  omega

theorem abides_takeCommand (h : Owing p i n 0 s w) (hc : c.due p i = 0) (name : String) :
    (Interp.takeCommand j name).Abides (contract p i) cs c
      (fun command s' w' => Owing p i n (dueOf p i j (command.bind (·.onDelete))) s' w') s w :=
  fun _ hs => ⟨(h.taken hc hs).le, h.taken hc hs⟩

theorem keeping_deleteCommand (name : String) :
    Keeping p i cs c (Interp.deleteCommand j name) := by
  refine fun hc n s w h => Program.Abides.bind ((abides_takeCommand h hc name).imp
    fun command s' w' h' => ?_)
  cases command with
  | none =>
    rw [Option.bind_none, dueOf_none] at h'
    exact h'
  | some command =>
    exact Program.Takes.bind (takes_runDelete j command.onDelete) (fun _ => .pure _) s' w' h'

/-- A command is put into the table, not by force, and the ledger is right about it. -/
theorem Owing.put (h : Owing p i n d s w) {name : String} {command : Command}
    (hs : w.Unforced p i (w.withCommand j name command))
    (hbalance : s'.created = s'.begun + (w.withCommand j name command).standing p i + n) :
    Owing p i n 0 s' (w.withCommand j name command) := by
  refine ⟨hbalance, fun hd => h.prompt (World.disposed_withCommand.symm.trans hd), fun hd => ?_⟩
  have hd := World.disposed_withCommand.symm.trans hd
  exact Nat.le_zero.1 (h.sealed hd ▸ hs.sealed hd)

/-- Where a command is put not by force there was no other one with such a delete
procedure. -/
theorem standing_le_withCommand {name : String} {command : Command}
    (hs : w.Unforced p i (w.withCommand j name command)) :
    w.standing p i ≤ (w.withCommand j name command).standing p i := by
  have hput := standing_withCommand p i j w name command
  cases hold : (w.interpreter j).commands[name]? with
  | none =>
    rw [hold, Option.bind_none, dueOf_none] at hput
    omega
  | some old =>
    rw [hold, Option.bind_some] at hput
    rcases dueOf_eq_zero_or p i j old.onDelete with hzero | ⟨rfl, hany⟩
    · omega
    · obtain rfl : command = old := by
        refine hs.place name old command hold hany ?_
        rw [World.commands_withCommand, getElem?_insert_name, if_pos rfl]
      omega

/-- A command that is put into the table has been created. -/
theorem keeping_putCommand (hr : ¬c.IsRenaming) (name : String) (command : Command) :
    Keeping p i cs c (Interp.putCommand j name command) := by
  refine fun hc n => Program.Takes.update (f := fun w => ((), w.withCommand j name command))
    fun s w s' h hs => ?_
  have hcreated := hs.1.created hr
  have hbegun := hs.1.others (not_begins hc)
  have hle := standing_le_withCommand hs.2
  have hbalance := h.balance
  have howing : Owing p i n 0 s' (w.withCommand j name command) :=
    h.put hs.2 (by dsimp only at hcreated; omega)
  exact ⟨howing.le, howing⟩

theorem keeping_createCommand (hr : ¬c.IsRenaming) (name : String) (command : Command) :
    Keeping p i cs c (Interp.createCommand j name command) := by
  refine fun hc n => .bind (.get fun _ => .pure _) fun state => ?_
  split
  · exact .pure _
  · refine fun s w h => Program.Abides.bind ((abides_takeCommand h hc name).imp
      fun previous s' w' h' => ?_)
    exact Program.Takes.bind (takes_runDelete j _) (fun _ =>
      .bind (keeping_putCommand hr name command hc n) fun _ => .pure _) s' w' h'

/-- What is put under another name than it was taken out from is no new command. -/
theorem abides_putCommand_renamed (hr : c.IsRenaming) {name : String} {command : Command}
    (h : Owing p i n (dueOf p i j command.onDelete) s w) (hc : c.due p i = 0)
    (hnew : (w.interpreter j).commands[name]? = none) :
    (Interp.putCommand j name command).Abides (contract p i) cs c
      (fun _ s' w' => Owing p i n 0 s' w') s w := by
  intro s' hs
  have hput := standing_withCommand p i j w name command
  rw [hnew, Option.bind_none, dueOf_none] at hput
  have hcreated := hs.1.renamed hr
  have hbegun := hs.1.others (not_begins hc)
  have hbalance := h.balance
  have howing : Owing p i n 0 s' (w.withCommand j name command) := h.put hs.2 (by omega)
  exact ⟨howing.le, howing⟩

/-- Renaming takes a command along with its delete procedure, and an empty name deletes it. -/
theorem keeping_renameCommand (hr : c.IsRenaming) (old new : String) :
    Keeping p i cs c (Interp.renameCommand j old new) := by
  intro hc n s w h
  refine Program.abides_reading_iff.2 ?_
  split
  · exact coarse.fail j _ hc n s w h
  · split
    · exact Program.Takes.bind (keeping_deleteCommand old hc n) (fun _ => .pure _) s w h
    · split
      · exact coarse.fail j _ hc n s w h
      · rename_i hnew
        refine Program.abides_update_iff.2 fun s' hs => ?_
        have htaken := h.taken hc hs
        refine ⟨htaken.le, ?_⟩
        dsimp only
        split
        · rename_i hnone
          rw [hnone, Option.bind_none, dueOf_none] at htaken
          exact htaken
        · rename_i command hsome
          rw [hsome] at htaken
          have hfree : ((w.withoutCommand j old).interpreter j).commands[new]? = none := by
            rw [World.commands_withoutCommand, getElem?_erase_name]
            split
            · rfl
            · refine Option.not_isSome_iff_eq_none.1 fun hstands => hnew ?_
              exact Std.ExtTreeMap.contains_eq_isSome_getElem?.trans hstands
          exact Program.Abides.bind ((abides_putCommand_renamed hr htaken hc hfree).imp
            fun _ _ _ h' => h')

/-! ### Disposals -/

/-- The commands of a disposal are gone, and their delete procedures are called one by one. -/
theorem takes_deletions (commands : List Command) (n : Nat) :
    (Program.each (fun command => Interp.runDelete i command.onDelete) commands).Takes
      (contract p i) cs c (Owing p i (n + commands.countP fun command => command.onDelete.any p) 0)
      (Owing p i n 0) := by
  induction commands with
  | nil => exact .pure ()
  | cons command rest ih =>
    refine .bind (fun s w h => ?_) fun _ => ih
    refine takes_runDelete i command.onDelete s w ?_
    rw [List.countP_cons] at h
    have hbalance := h.balance
    rw [dueOf, if_pos rfl]
    cases hany : command.onDelete.any p with
    | false =>
      rw [hany] at h
      exact h
    | true =>
      rw [hany, if_pos rfl] at h hbalance
      rw [Bool.toNat_true]
      refine ⟨by omega, fun hd => ?_, h.sealed⟩
      have := h.prompt hd
      omega

theorem keeping_takeDown_of_ne (hj : j ≠ i) : Keeping p i cs c (Interp.takeDown j) :=
  coarse.takeDown j
    (keeping_calm fun w => calm_withInterpreter_of_ne w hj fun s => { s with commands := ∅ })
    (keeping_runDelete_of_ne hj) fun _ _ _ _ => keeping_request rfl

/-- A disposal takes all commands out and calls their delete procedures. -/
theorem abides_takeDown (h : s.created = s.begun + w.standing p i) (hc : c.due p i = 0)
    (hd : (w.interpreter i).disposed = true) :
    (Interp.takeDown i).Abides (contract p i) cs c (fun _ s' w' => Owing p i 0 0 s' w') s w := by
  refine Program.Abides.bind fun s' hs => ?_
  have hstanding : World.standing p i (w.withInterpreter i fun s => { s with commands := ∅ }) =
      0 := by
    rw [World.standing, World.interpreter_withInterpreter_self]
    exact Commands.standing_empty
  have hdisposed : ((w.withInterpreter i fun s =>
      { s with commands := ∅ }).interpreter i).disposed = true := by
    rw [World.interpreter_withInterpreter_self]
    exact hd
  have hcount : (w.order.commands i ((w.interpreter i).commands.toList.map (·.2))).countP
      (fun command => command.onDelete.any p) = w.standing p i :=
    ((w.order.perm_commands i _).countP_eq _).trans List.countP_map
  obtain ⟨hcreated, hbegun⟩ := records_same hs.1 (not_begins hc) (by rw [hstanding]; omega)
  have howing : Owing p i (0 + (w.order.commands i
      ((w.interpreter i).commands.toList.map (·.2))).countP
        (fun command => command.onDelete.any p)) 0 s'
      (w.withInterpreter i fun s => { s with commands := ∅ }) := by
    refine ⟨?_, fun hd' => absurd (hdisposed.symm.trans hd') nofun, fun _ => hstanding⟩
    rw [hstanding, hcount]
    omega
  refine ⟨howing.le, ?_⟩
  refine Program.Takes.bind (takes_deletions _ 0) (fun _ => ?_) s' _ howing
  have hfire : ∀ t r flags later, Keeping p i cs c (Program.request (.fire i t r
      ((Flags.traceUnsets.union (Flags.interpDestroyed.union .globalOnly)).union flags) later)) :=
    fun _ _ _ _ => keeping_request rfl
  exact Program.Takes.bind (keeping_calm (fun w => calm_of_alike (w.alike_withVars i ∅)) hc 0)
    fun _ => .bind (coarse.each (fun _ => coarse.fireUnset i _ _ _ hfire) _ hc 0) fun _ =>
      coarse.modifyInterpreter i (f := fun s => { s with vars := ∅ })
        (fun _ => ⟨rfl, rfl, rfl, rfl⟩) hc 0

theorem keeping_dispose : Keeping p i cs c (Interp.dispose j) := by
  rw [Interp.dispose_eq]
  by_cases hj : j = i
  · subst hj
    refine fun hc n s w h => ?_
    refine Program.abides_get_iff.2 ?_
    split
    · exact h
    · rename_i hdone
      obtain rfl := h.prompt (Bool.not_eq_true _ ▸ hdone)
      intro s' hs
      have hmark : (w.withInterpreter j fun s => { s with disposed := true }).interpreter j =
          { w.interpreter j with disposed := true } := World.interpreter_withInterpreter_self ..
      have hstanding : World.standing p j (w.withInterpreter j fun s =>
          { s with disposed := true }) = w.standing p j := by
        rw [World.standing, hmark]
        rfl
      obtain ⟨hcreated, hbegun⟩ := records_same hs.1 (not_begins hc) (Nat.le_of_eq hstanding)
      have hbalance := h.balance
      have hall : s'.created = s'.begun + World.standing p j (w.withInterpreter j fun s =>
          { s with disposed := true }) := by
        rw [hstanding]
        omega
      exact ⟨Nat.le_of_eq hall.symm, abides_takeDown hall hc (by rw [hmark])⟩
  · refine sequential.get fun w => ?_
    split
    · exact sequential.pure ()
    · exact sequential.bind (keeping_modifyInterpreter_of_ne hj fun s => { s with disposed := true })
        fun _ => keeping_takeDown_of_ne hj

/-- Uses do not matter. -/
theorem unheld : Program.Unheld (Keeping p i cs c) where
  toSequential := sequential
  spare hf := keeping_calm fun w => calm_of_eq (World.interpreter_congr (hf w).1 i)
  withPreserved _ _ := keeping_modifyInterpreter fun _ => ⟨rfl, rfl⟩

theorem keeping_release : Keeping p i cs c (Interp.release j) :=
  unheld.release keeping_dispose

theorem keeping_delete : Keeping p i cs c (Interp.delete j) :=
  sequential.delete (keeping_modifyInterpreter fun _ => ⟨rfl, rfl⟩) keeping_dispose

/-! ### All programs -/

/-- A new interpreter has no commands with delete procedures. -/
theorem keeping_addInterpreter (maxNesting : Nat) :
    Keeping p i cs c (Bridge.addInterpreter maxNesting) := by
  refine keeping_calm fun w => ?_
  have hadd := w.interpreter_add (.new maxNesting) i
  by_cases hi : w.interpreters.next = i
  · rw [if_pos hi] at hadd
    have hbefore : w.interpreter i = {} := hi ▸ w.interpreter_next
    refine ⟨?_, by rw [hadd, hbefore]; rfl⟩
    rw [World.standing, World.standing, hadd, hbefore]
    exact Commands.standing_builtinCommands.trans Commands.standing_empty.symm
  · rw [if_neg hi] at hadd
    exact calm_of_eq hadd

/-- The programs of all calls, as far as they create no commands. -/
theorem domestic : Program.Domestic (Keeping p i cs c) where
  toSequential := sequential
  setResult := coarse.setResult
  fireTraces j r _ _ flags := coarse.fireTraces j r _ flags fun _ _ => keeping_request rfl
  invoke _ _ := keeping_request rfl
  overflow _ _ _ := .overflow _
  update := coarse.aside
  evaluate _ _ := keeping_request rfl
  interpreterStep _ _ := keeping_request rfl
  modifyInterpreter j _ hf := coarse.plain j hf
  store := coarse.store
  unset j name key flags := coarse.unset j name key flags fun _ _ _ _ => keeping_request rfl

theorem due_of_isOperation {e : Call} (he : e.IsOperation) : e.due p i = 0 := by
  cases e with
  | deleted => exact he.elim
  | _ => rfl

/-- The programs of all calls but those that rename. -/
theorem conduct (hr : ¬c.IsRenaming) : Program.Conduct (Keeping p i cs c) where
  toDomestic := domestic
  request he := keeping_request (due_of_isOperation he)
  createCommand _ name _ _ := keeping_createCommand hr name _
  deleteCommand _ := keeping_deleteCommand
  delete _ := keeping_delete
  buildBundle := unheld.buildBundle
  teardown := unheld.teardown fun _ => keeping_release
  addInterpreter := keeping_addInterpreter
  addHandle _ _ := keeping_calm fun _ => calm_of_eq rfl
  destroy _ := coarse.destroy (keeping_modify fun _ => rfl) fun _ => keeping_delete
  register _ _ _ :=
    coarse.register (fun _ => keeping_createCommand hr _ _) (keeping_modify fun _ => rfl)
  traceVar handle name key flags function :=
    coarse.traceVar handle name key flags function (keeping_modify fun _ => rfl)
  untraceVar handle name key flags function :=
    coarse.untraceVar handle name key flags function (keeping_modify fun _ => rfl)

theorem keeping_guarded {body : Program Status} (hbody : Keeping p i cs c body) :
    Keeping p i cs c (Interp.guarded j body) :=
  unheld.guarded (coarse.fail j) keeping_release hbody

/-- A delete procedure begins with its first change and runs to its end. -/
theorem takes_runDeleteAction {action : DeleteAction} (hp : p action = true) :
    (Scenario.runDeleteAction i action).Takes (contract p i) cs (.deleted i action)
      (Owing p i n 1) (Owing p i n 0) := by
  have hbegin : ∀ f : World → World, (∀ w, (f w).interpreters = w.interpreters) →
      (∀ w, action.Begins w (f w)) → (Program.modify f).Takes (contract p i) cs
        (.deleted i action) (Owing p i n 1) (Owing p i n 0) := by
    refine fun f hf hb => .update (f := fun w => ((), f w)) fun s w s' h hs => ?_
    have hcalm : Calm p i w (f w) := calm_of_eq (World.interpreter_congr (hf w) i)
    have hbegun := hs.1.begun ⟨action, rfl, hp, hb w⟩
    have hcreated := hs.1.created nofun
    rw [hcalm.standing, Nat.sub_self] at hcreated
    have hbalance := h.balance
    have howing : Owing p i n 0 s' (f w) := by
      refine ⟨?_, fun hd => h.prompt (hcalm.disposed.symm.trans hd),
        fun hd => hcalm.standing.trans (h.sealed (hcalm.disposed.symm.trans hd))⟩
      rw [hcalm.standing]
      omega
    exact ⟨howing.le, howing⟩
  cases action with
  | forget handle key => exact hbegin _ (fun _ => rfl) fun _ => rfl
  | scripted label body =>
    refine .bind (hbegin _ (fun _ => rfl) fun _ => rfl) fun _ => .each fun step _ => .bind
      (takes_request (.interpreterStep i step)) fun answer => ?_
    -- answers are logged as answers, so the procedure does not begin a second time
    refine takes_calm (f := fun w => ((), w.log (.nested answer))) ?_ fun w => calm_of_eq rfl
    rintro w ⟨_, hc, -, hb⟩
    obtain ⟨-, rfl⟩ := Call.deleted.inj hc
    exact nomatch (List.cons.inj (congrArg (·.journal.events) hb)).1

theorem keeping_handle : Keeping p i cs c (Scenario.handle c) := by
  by_cases hr : c.IsRenaming
  · cases c with
    | invoke j words =>
      exact domestic.invokeWith (domestic.performProcedure (fun _ _ => keeping_request rfl)
        fun _ => keeping_renameCommand hr) j (coarse.enterCommand j) (coarse.leaveCommand j) words
    | interpreterStep j step =>
      cases step with
      | rename old new =>
        exact sequential.bind (keeping_renameCommand hr old new) fun _ =>
          sequential.bind (sequential.reading _) fun _ => sequential.pure _
      | _ => exact hr.elim
    | _ => exact hr.elim
  · have h : Program.Conduct (Keeping p i cs c) := conduct hr
    cases hc : c.evaluated? with
    | some j =>
      cases c with
      | eval k script =>
        exact keeping_guarded (h.bind (h.setResult k _) fun _ => h.runScript k _)
      | evalWords k words => exact keeping_guarded (h.invoke k words)
      | _ => cases hc
    | none =>
      exact h.handle hc (fun hr' => absurd hr' hr)
        (fun j _ _ => ⟨coarse.enterCommand j, coarse.leaveCommand j⟩)
        coarse.addTrace coarse.removeTrace (fun _ _ _ _ => keeping_modify fun _ => rfl)
        unheld.addGuard (unheld.dropGuard fun _ => keeping_release)
        (fun j _ => unheld.withPreserved j (· + 1)) fun _ _ => keeping_release

/-- Every call keeps what is owed. -/
theorem holds (p : DeleteAction → Bool) (i : Nat) :
    (contract p i).Holds Scenario.handle := by
  rintro cs c s w - ⟨n, hn⟩
  suffices h : (Scenario.handle c).Takes (contract p i) cs c (Owing p i n (c.due p i))
      (Owing p i n 0) from (h s w hn).imp fun _ _ _ h' => ⟨n, hn, h'⟩
  cases hdue : c.due p i with
  | zero => exact keeping_handle hdue n
  | succ d =>
    cases c with
    | deleted j action =>
      rcases dueOf_eq_zero_or p i j (some action) with hzero | ⟨rfl, hp⟩
      · exact nomatch hdue.symm.trans hzero
      · rw [Call.due, dueOf, if_pos rfl, hp] at hdue
        obtain rfl : 0 = d := Nat.succ.inj hdue
        exact takes_runDeleteAction hp
    | _ => cases hdue

theorem between : (contract p i).Between (Owing p i 0 0) where
  pre c s w hc h := by
    have hdue : c.due p i = 0 := by
      cases c with
      | deleted j action =>
        refine dueOf_of_ne (fun hj => ?_) _
        subst hj
        exact hc rfl action rfl
      | _ => rfl
    exact ⟨0, hdue ▸ h⟩
  post c s w s' w' h := by
    rintro ⟨n, hn, hn'⟩
    have := h.balance
    have := hn.balance
    obtain rfl : n = 0 := by omega
    exact hn'
  aside s w w' h ha := by
    have hcalm : Calm p i w w' := calm_of_eq (World.interpreter_congr ha.interpreters i)
    exact ⟨hcalm.standing ▸ h.balance, fun _ => rfl,
      fun hd => hcalm.standing.trans (h.sealed (hcalm.disposed.symm.trans hd))⟩

/-- Renaming makes no calls and puts the command under its new name. -/
theorem makes_renameCommand {handler : Machine.Handler} {old new : String} {command : Command}
    (hold : (w.interpreter i).commands[old]? = some command) (hempty : new.isEmpty = false)
    (hnew : (w.interpreter i).commands[new]? = none) :
    ∃ w', (Interp.renameCommand i old new).Makes handler w [] .ok w' ∧
      (w'.interpreter i).commands = ((w.interpreter i).commands.erase old).insert new command := by
  have hstands : (w.interpreter i).hasCommand old = true := by
    rw [Interpreter.hasCommand, Std.ExtTreeMap.contains_eq_isSome_getElem?, hold]
    rfl
  have hfree : (w.interpreter i).hasCommand new = false := by
    rw [Interpreter.hasCommand, Std.ExtTreeMap.contains_eq_isSome_getElem?, hnew]
    rfl
  refine ⟨(w.withoutCommand i old).withCommand i new command,
    Program.makes_reading_iff.2 ?_, ?_⟩
  · rw [hstands, hempty, hfree]
    refine Program.makes_update_bind_iff.2 ?_
    dsimp only
    rw [hold]
    exact Program.makes_modify_bind_iff.2 (.done _ _)
  · rw [World.commands_withCommand, World.commands_withoutCommand]

end Deletion

/-- **Delete procedures run once.**  In a session in which nothing is put over a command that
nobody has taken out: at no time are more of the commands that were created in the table or
at their delete procedures than were created; as long as the interpreter has not been disposed
of, whatever is called or replied, those that are not in the table have had their delete
procedures begin, or this is the call to the one that is still missing; and whenever the host
gets its reply, they all have, which are all of them after the disposal.  Renaming takes a
command along with its delete procedure.  All this holds of the commands with any delete
procedures that one may pick out, such as a single one. -/
theorem Machine.Watched.deleted_once {p : DeleteAction → Bool} {i : Nat} {s₀ s : Ledger}
    {w₀ : World} (h₀ : s₀.created = s₀.begun + w₀.standing p i)
    (hd : (w₀.interpreter i).disposed = false) {root : Call} {m : Machine root}
    (h : m.Watched (deletions p i) Scenario.handle s₀ w₀ s) :
    s.begun + m.world.standing p i ≤ s.created ∧
      ((m.world.interpreter i).disposed = false →
        (∀ d k, m.code = .call d k → s.created = s.begun + m.world.standing p i + d.due p i) ∧
        ∀ a, m.code = .done a → s.created = s.begun + m.world.standing p i) ∧
      (∀ r w, m.step Scenario.handle = .inr (.reply r w) →
        s.created = s.begun + w.standing p i ∧
          ((w.interpreter i).disposed = true → w.standing p i = 0)) ∧
      ∀ old new command, (m.world.interpreter i).commands[old]? = some command →
        new.isEmpty = false → (m.world.interpreter i).commands[new]? = none →
        ∃ w, (Interp.renameCommand i old new).Makes Scenario.handle m.world [] .ok w ∧
          (w.interpreter i).commands =
            ((m.world.interpreter i).commands.erase old).insert new command := by
  have howing : Deletion.Owing p i 0 0 s₀ w₀ :=
    ⟨h₀, fun _ => rfl, fun hd' => absurd (hd.symm.trans hd') nofun⟩
  obtain ⟨hcall, hdone, -⟩ := h.boundary (Deletion.holds p i) Deletion.between howing
  refine ⟨?_, fun hlive => ⟨fun d k hcode => ?_, fun a hcode => ?_⟩, fun r w hr => ?_,
    fun old new command => Deletion.makes_renameCommand⟩
  · exact h.throughout (Deletion.holds p i) Deletion.between
      (J := fun s w => s.begun + w.standing p i ≤ s.created) (fun _ _ h => h.le)
      (fun _ _ _ _ _ hchange => hchange) howing
  · obtain ⟨n, hn⟩ := hcall d k hcode fun hcs => by
      rw [Stack.calls_eq] at hcs
      cases hcs
    obtain rfl := hn.prompt hlive
    exact hn.balance
  · obtain ⟨_, _, n, -, hn⟩ := hdone a hcode
    obtain rfl := hn.prompt hlive
    exact hn.balance
  · have hend := (h.session hr).invariant (Deletion.holds p i) Deletion.between howing
    exact ⟨hend.balance, hend.sealed⟩

namespace Deletion

variable {p : DeleteAction → Bool} {i n : Nat} {c : Call} {s : Ledger} {w w' : World}

/-- The delete procedures that log a label. -/
def logs (label : String) : DeleteAction → Bool
  | .forget .. => false
  | .scripted own _ => own == label

/-- Makes a command that logs its label when it is deleted, and then does some steps. -/
def create (name label : String) (body : List InterpreterStep) : InterpreterStep :=
  .create name label [] none .ok (some body)

theorem standing_single (p : DeleteAction → Bool) (n : Nat) :
    (World.single n).standing p 0 = 0 := by
  rw [World.standing, World.interpreter_single]
  exact Commands.standing_builtinCommands

/-- A change with which commands may be created but no delete procedure begins. -/
theorem records_of_not_begins (hr : ¬c.IsRenaming) (hb : ¬c.Begins p i w w')
    (hn : n = s.created + (w'.standing p i - w.standing p i)) :
    Ledger.Records p i c s w ⟨n, s.begun⟩ w' :=
  ⟨fun _ => hn, fun h => absurd h hr, fun h => absurd h hb, fun _ => rfl⟩

/-- A change with which a delete procedure begins. -/
theorem records_of_begins (hr : ¬c.IsRenaming) (hb : c.Begins p i w w')
    (hn : n = s.created + (w'.standing p i - w.standing p i)) :
    Ledger.Records p i c s w ⟨n, s.begun + 1⟩ w' :=
  ⟨fun _ => hn, fun h => absurd h hr, fun _ => rfl, fun h => absurd hb h⟩

/-- Where no command has such a delete procedure none can lose its place. -/
theorem unforced_of_standing (h : w.standing p i = 0) (hd : (w.interpreter i).disposed = false) :
    w.Unforced p i w' := by
  refine ⟨fun name c c' hc hany _ => ?_, fun hd' => absurd (hd.symm.trans hd') nofun⟩
  have hstands : w.standing p i = _ := Commands.standing_of_getElem? hc
  rw [hany, Bool.toNat_true] at hstands
  omega

/-- Nothing takes the place of a command that is taken out. -/
theorem unforced_withoutCommand (p : DeleteAction → Bool) (i : Nat) (w : World) (name : String) :
    w.Unforced p i (w.withoutCommand i name) := by
  refine ⟨fun name' c c' hc _ hc' => ?_, fun _ => ?_⟩
  · rw [World.commands_withoutCommand, getElem?_erase_name] at hc'
    split at hc'
    · cases hc'
    · exact Option.some.inj (hc'.symm.trans hc)
  · have := standing_withoutCommand p i i w name
    omega

theorem unforced_of_eq (h : w'.interpreter i = w.interpreter i) : w.Unforced p i w' := by
  refine ⟨fun name c c' hc _ hc' => ?_, fun _ => ?_⟩
  · rw [h] at hc'
    exact Option.some.inj (hc'.symm.trans hc)
  · exact Nat.le_of_eq (by rw [World.standing, World.standing, h])

theorem disposed_single (n : Nat) : ((World.single n).interpreter 0).disposed = false := by
  rw [World.interpreter_single]
  rfl

/-- A world whose interpreter has a command that logs a label when it is deleted. -/
def stocked : World :=
  ((World.single 10).withoutCommand 0 "foo").withCommand 0 "foo"
    { procedure := .scripted "first" [] none .ok, onDelete := some (.scripted "first" []) }

theorem standing_cleared :
    ((World.single 10).withoutCommand 0 "foo").standing (logs "first") 0 = 0 := by
  have htaken := standing_withoutCommand (logs "first") 0 0 (.single 10) "foo"
  rw [standing_single] at htaken
  exact (Nat.add_eq_zero_iff.1 htaken).1

theorem standing_stocked : stocked.standing (logs "first") 0 = 1 := by
  have hput := standing_withCommand (logs "first") 0 0 ((World.single 10).withoutCommand 0 "foo")
    "foo" { procedure := .scripted "first" [] none .ok, onDelete := some (.scripted "first" []) }
  rw [World.commands_withoutCommand, getElem?_erase_name, if_pos rfl, standing_cleared] at hput
  exact hput

/-- That the command is created in a new interpreter is noted. -/
theorem session_create : (deletions (logs "first") 0).Session Scenario.handle {} (.single 10)
    { created := 1 } stocked := by
  have hstart : Machine.Watched (deletions (logs "first") 0) Scenario.handle {} (.single 10) {}
      (.start Scenario.handle (.interpreterStep 0 (create "foo" "first" [])) (.single 10)) :=
    .start fun _ _ => nofun
  have htake : Machine.Watched (deletions (logs "first") 0) Scenario.handle {} (.single 10) {} _ :=
    ((hstart.next ⟨rfl, rfl⟩).next ⟨rfl, rfl⟩).next ⟨rfl,
      records_of_not_begins id nofun (by rw [standing_single]; exact standing_cleared.symm),
      unforced_withoutCommand _ _ _ "foo"⟩
  have hput : Machine.Watched (deletions (logs "first") 0) Scenario.handle {} (.single 10)
      { created := 1 } _ :=
    (htake.next ⟨rfl, rfl⟩).next ⟨rfl,
      records_of_not_begins id nofun
        (congrArg₂ (fun m k => 0 + (m - k)) standing_stocked standing_cleared).symm,
      unforced_of_standing standing_cleared
        (World.disposed_withoutCommand.trans (disposed_single 10))⟩
  exact hput.session rfl

end Deletion

/-- A command with a delete procedure is created in a new interpreter and deleted again. -/
theorem Machine.Watched.deleted_once_created :
    0 = 0 + (World.single 10).standing (Deletion.logs "first") 0 ∧
    ((World.single 10).interpreter 0).disposed = false ∧
    ∃ (m : Machine (.interpreterStep 0 (.deleteCommand "foo"))) (w : World),
      m.Watched (deletions (Deletion.logs "first") 0) Scenario.handle {} (.single 10)
        { created := 1, begun := 1 } ∧
      m.step Scenario.handle = .inr (.reply (.bool true) w) ∧
      w.journal.events = [.deleted "first"] ∧ 1 = 1 + w.standing (Deletion.logs "first") 0 := by
  have h₀ : 0 = 0 + (World.single 10).standing (Deletion.logs "first") 0 := by
    rw [Deletion.standing_single]
  have hd := Deletion.disposed_single 10
  have hstart : Machine.Watched (deletions (Deletion.logs "first") 0) Scenario.handle {}
      (.single 10) { created := 1 } (.start Scenario.handle
        (.interpreterStep 0 (.deleteCommand "foo")) Deletion.stocked) :=
    ⟨_, _, Deletion.session_create, fun _ _ => nofun, .refl⟩
  have hle := Deletion.standing_withoutCommand (Deletion.logs "first") 0 0 Deletion.stocked "foo"
  have htake : Machine.Watched (deletions (Deletion.logs "first") 0) Scenario.handle {}
      (.single 10) { created := 1 } _ :=
    (hstart.next ⟨rfl, rfl⟩).next ⟨rfl,
      Deletion.records_of_not_begins id nofun
        (congrArg (1 + ·) (Nat.sub_eq_zero_of_le (Nat.le.intro hle)).symm),
      Deletion.unforced_withoutCommand _ _ _ "foo"⟩
  have hbegin : Machine.Watched (deletions (Deletion.logs "first") 0) Scenario.handle {}
      (.single 10) { created := 1, begun := 1 } _ :=
    ((htake.next ⟨rfl, rfl, nofun⟩).next ⟨rfl, rfl⟩).next ⟨rfl,
      Deletion.records_of_begins id ⟨_, rfl, rfl, rfl⟩
        (congrArg (1 + ·) (Nat.sub_self _).symm),
      Deletion.unforced_of_eq rfl⟩
  have hdone := hbegin.next ⟨rfl, rfl⟩
  exact ⟨h₀, hd, _, _, hdone, rfl, rfl, ((hdone.deleted_once h₀ hd).2.2.1 _ _ rfl).1⟩

/-- **A command that is overwritten is never deleted.**  The delete procedure of a command
creates a command of the same name when the first one is replaced.  What replaces it is put
over the second command, which was created successfully; when the interpreter has been disposed
of, its delete procedure has not run. -/
theorem Deletion.overwritten : ∃ w₁ w₂ w₃,
    Scenario.outcome 60 (.interpreterStep 0 (create "foo" "first" [create "foo" "inner" []]))
        (.single 10) = some (.reply (.bool true) w₁) ∧
      Scenario.outcome 60 (.interpreterStep 0 (create "foo" "outer" [])) w₁ =
        some (.reply (.bool true) w₂) ∧
      w₂.journal.events = [.nested (.bool true), .deleted "first"] ∧
      Scenario.outcome 60 (.interpreterStep 0 .delete) w₂ = some (.reply .unit w₃) ∧
      (w₃.interpreter 0).disposed = true ∧
      w₃.journal.events = [.deleted "outer", .nested (.bool true), .deleted "first"] :=
  ⟨_, _, _, rfl, rfl, rfl, rfl, rfl, rfl⟩

end CommandBridge
