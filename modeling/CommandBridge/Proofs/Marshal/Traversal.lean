/-
# How a conversion walks through a value

A conversion goes through a value depth first and from left to right, and it ends
with the first obstacle that it meets (`walked_convert`).  So it succeeds if and only
if the value is convertible, with the tree that the value unfolds to (`Unfolds`), in
which a shared table is unfolded wherever it occurs; and it fails if and only if
there is a first obstacle, with the reason that this has (`toTarget_walk`).

The tables that are on the way to a value all exist, which is the invariant of the
walk: of the tables that do not exist none is on the way, and they are converted like
empty ones.
-/

import CommandBridge.Proofs.Host.Obstacles
import CommandBridge.Proofs.Marshal.Conversion

namespace CommandBridge
namespace Marshal

/-- The second value is the tree that the first one unfolds to: each table is the
list of what its array region unfolds to. -/
inductive Unfolds (h : Heap) : HostValue → Value → Prop
  | nil : Unfolds h .nil .empty
  | bool (b : Bool) : Unfolds h (.bool b) (.boolean b)
  | int (i : Int64) : Unfolds h (.int i) (.int i)
  | number (x : Binary64) : Unfolds h (.number x) (ofNumber x)
  | string (bs : Bytes) : Unfolds h (.string bs) (ofBytes bs)
  | table {id : Nat} {xs : List Value} (hl : xs.length = (h.table id).array.length)
      (hi : ∀ (n : Nat) (v : HostValue) (x : Value), (h.table id).array[n]? = some v →
        xs[n]? = some x → Unfolds h v x) : Unfolds h (.table id) (.list xs)

namespace Unfolds

variable {h : Heap} {v : HostValue} {x y : Value}

theorem of_forall₂ {id : Nat} {xs : List Value}
    (hxs : List.Forall₂ (Unfolds h) (h.table id).array xs) : Unfolds h (.table id) (.list xs) := by
  obtain ⟨hlen, hget⟩ := List.forall₂_iff_get.1 hxs
  refine .table hlen.symm fun n v x hv hx => ?_
  obtain ⟨hn, rfl⟩ := List.getElem?_eq_some_iff.1 hv
  obtain ⟨hn', rfl⟩ := List.getElem?_eq_some_iff.1 hx
  exact hget n hn hn'

/-- A value unfolds to one tree. -/
theorem unique (hx : Unfolds h v x) (hy : Unfolds h v y) : x = y := by
  induction hx generalizing y with
  | nil | bool | int | number | string => cases hy; rfl
  | table hl hi ih =>
    cases hy with
    | table hl' hi' =>
      congr 1
      refine List.ext_getElem (hl.trans hl'.symm) fun n hn hn' => ?_
      have hv := List.getElem?_eq_getElem (hl ▸ hn)
      exact ih n _ _ hv (List.getElem?_eq_getElem hn) (hi' n _ _ hv (List.getElem?_eq_getElem hn'))

/-- A tree is finite, so what unfolds to one has no cycles. -/
theorem convertible (hx : Unfolds h v x) : h.Convertible v := by
  induction hx with
  | nil | bool | int | number | string =>
    refine Heap.convertible_of_holds nofun nofun ?_
    rintro w ⟨id, hid, -⟩
    cases hid
  | @table id xs hl hi ih =>
    refine Heap.convertible_of_holds nofun nofun ?_
    rintro w ⟨k, hk, hmem⟩
    obtain rfl := HostValue.table.inj hk
    obtain ⟨n, hn, rfl⟩ := List.getElem_of_mem hmem
    exact ih n _ _ (List.getElem?_eq_getElem hn) (List.getElem?_eq_getElem (hl ▸ hn))

end Unfolds

/-- The values are converted in order, or the first failure among them is that of all. -/
theorem convertEach_cases {h : Heap} {seen : Visited} {vs : List HostValue}
    {P : HostValue → Value → Prop} {Q : HostValue → ConversionError → Prop}
    (hvs : ∀ v ∈ vs, (∃ x, (convert h seen v).1 = .ok x ∧ P v x) ∨
      ∃ e, (convert h seen v).1 = .error e ∧ Q v e) :
    (∃ xs, (convertEach h seen vs).1 = .ok xs ∧ List.Forall₂ P vs xs) ∨
      ∃ (n : Nat) (v : HostValue) (e : ConversionError), vs[n]? = some v ∧
        (convertEach h seen vs).1 = .error e ∧ Q v e ∧
        ∀ m < n, ∀ w, vs[m]? = some w → ∃ x, P w x := by
  induction vs with
  | nil => exact .inl ⟨[], convertEach_nil, .nil⟩
  | cons v r ih =>
    rcases hvs v List.mem_cons_self with ⟨x, hx, hp⟩ | ⟨e, he, hq⟩
    · rcases ih fun w hw => hvs w (List.mem_cons_of_mem v hw) with
        ⟨xs, hxs, hps⟩ | ⟨n, w, e, hw, he, hq, hall⟩
      · exact .inl ⟨x :: xs, by rw [convertEach_cons, hx, hxs]; rfl, .cons hp hps⟩
      · refine .inr ⟨n + 1, w, e, hw, by rw [convertEach_cons, hx, he]; rfl, hq, ?_⟩
        intro m hm u hu
        cases m with
        | zero => exact ⟨x, Option.some.inj hu ▸ hp⟩
        | succ m => exact hall m (Nat.lt_of_succ_lt_succ hm) u hu
    · exact .inr ⟨0, v, e, rfl, by rw [convertEach_cons, he]; rfl, hq,
        fun m hm => absurd hm m.not_lt_zero⟩

/-- What the conversion of a value comes to when the tables `way` are on the way to
it: the tree of a value without obstacles, or the reason of the first obstacle. -/
def Walked (h : Heap) (way : List Nat) (v : HostValue) (r : Except ConversionError Value) : Prop :=
  (∃ x, r = .ok x ∧ Unfolds h v x ∧ ∀ p e, ¬ h.Obstacle way v p e) ∨
    ∃ e, r = .error e ∧ ∃ p, h.FirstObstacle way v p e

namespace Walked

variable {h : Heap} {way : List Nat} {v : HostValue} {x : Value}

/-- Data is converted as it is. -/
theorem data (hx : Unfolds h v x) (hv : ∀ id, v ≠ .table id) : Walked h way v (.ok x) := by
  refine .inl ⟨x, rfl, hx, fun p e ho => ?_⟩
  rcases ho.kind with ⟨id, rfl⟩ | ⟨id, rfl⟩ | ⟨id, rfl⟩
  · exact hv id rfl
  · cases hx
  · cases hx

/-- An obstacle is where the walk ends. -/
theorem refused {e : ConversionError} (ho : h.Obstacle way v [] e) : Walked h way v (.error e) :=
  .inr ⟨e, rfl, [], ho.first⟩

/-- A table goes by what it holds. -/
theorem table {seen : Visited} {id : Nat} (hid : id ∉ way)
    (hall : ∀ w ∈ (h.table id).array, Walked h (id :: way) w (convert h seen w).1) :
    Walked h way (.table id) ((convertEach h seen (h.table id).array).1.map .list) := by
  rcases convertEach_cases hall with ⟨xs, hxs, hps⟩ | ⟨n, w, e, hw, he, ⟨p, ho⟩, hbefore⟩
  · rw [hxs]
    have hunfold : List.Forall₂ (Unfolds h) (h.table id).array xs := hps.imp fun _ _ hp => hp.1
    refine .inl ⟨.list xs, rfl, .of_forall₂ hunfold, Heap.no_obstacle_table hid fun w hw => ?_⟩
    obtain ⟨hlen, hget⟩ := List.forall₂_iff_get.1 hps
    obtain ⟨n, hn, rfl⟩ := List.getElem_of_mem hw
    exact (hget n hn (hlen ▸ hn)).2
  · rw [he]
    refine .inr ⟨e, rfl, n :: p, ho.below hid hw fun m hm u hu => ?_⟩
    obtain ⟨x, hx⟩ := hbefore m hm u hu
    exact hx.2

end Walked

/-- **A conversion goes through the whole value or ends with the first obstacle.** -/
theorem walked_convert {h : Heap} (seen : Visited)
    (hseen : ∀ id ∈ seen.ids, ∃ t, h.tables.get? id = some t) (v : HostValue) :
    Walked h seen.ids v (convert h seen v).1 := by
  obtain ⟨n, hn⟩ : ∃ n, (h.unvisited seen.ids).length = n := ⟨_, rfl⟩
  induction n using Nat.strongRecOn generalizing seen v with
  | ind n ih =>
    cases v with
    | nil => rw [convert]; exact .data .nil (by rintro _ ⟨⟩)
    | bool b => rw [convert]; exact .data (.bool b) (by rintro _ ⟨⟩)
    | int i => rw [convert]; exact .data (.int i) (by rintro _ ⟨⟩)
    | number x => rw [convert]; exact .data (.number x) (by rintro _ ⟨⟩)
    | string bs => rw [convert]; exact .data (.string bs) (by rintro _ ⟨⟩)
    | function id =>
      rw [convert]
      · exact .refused (.function (Heap.valueAt?_nil h _))
      all_goals (intros; contradiction)
    | object id =>
      rw [convert]
      · exact .refused (.object (Heap.valueAt?_nil h _))
      all_goals (intros; contradiction)
    | table id =>
      cases ht : h.tables.get? id with
      | none =>
        have hid : id ∉ seen.ids := fun hm => by
          obtain ⟨t, ht'⟩ := hseen id hm
          rw [ht] at ht'
          cases ht'
        have hnil : (h.table id).array = [] := by
          rw [Heap.table, Pool.get, ht]
          rfl
        have hwalked : Walked h seen.ids (.table id)
            ((convertEach h seen (h.table id).array).1.map .list) :=
          Walked.table hid (by rw [hnil]; exact fun _ hv => absurd hv List.not_mem_nil)
        rw [hnil, convertEach_nil] at hwalked
        rw [convert_table, ht]
        exact hwalked
      | some t =>
        rw [convert_table, ht]
        dsimp only
        split
        · rename_i hc
          refine .refused (.outside ?_ (Heap.valueAt?_nil h _))
          rwa [Visited.contains, List.contains_iff_mem] at hc
        · rename_i hc
          rw [Bool.not_eq_true] at hc
          have hid : id ∉ seen.ids := by
            rwa [Visited.contains, List.contains_eq_mem, decide_eq_false_iff_not] at hc
          rw [← Heap.table_eq ht]
          refine Walked.table hid fun w _ => ?_
          refine ih _ (hn ▸ Heap.length_unvisited_lt ht hc) ⟨id :: seen.ids⟩ ?_ w rfl
          exact List.forall_mem_cons.2 ⟨⟨t, ht⟩, hseen⟩

/-! ### The whole conversion -/

/-- The message of a table that lies inside itself is that of no other obstacle. -/
theorem message_eq_iff {h : Heap} {way p : List Nat} {v : HostValue} {e : ConversionError}
    (ho : h.Obstacle way v p e) :
    e.message = "can not convert recursive table to target value" ↔ e = .recursiveTable := by
  have hf : (ConversionError.noCounterpart "function").message ≠
      ConversionError.recursiveTable.message := by decide
  have ho' : (ConversionError.noCounterpart "userdata").message ≠
      ConversionError.recursiveTable.message := by decide
  refine ⟨fun hm => ?_, fun he => by rw [he]; rfl⟩
  cases ho with
  | function => exact absurd hm hf
  | object => exact absurd hm ho'
  | outside | inside => rfl

/-- **What a conversion gives.**  It gives the tree that the value unfolds to, and it
gives one if and only if the value is convertible; otherwise it fails with a
conversion error, for the first obstacle of a walk depth first and from left to
right, and with the message about recursive tables if and only if that obstacle is a
table on the way to itself.  The tables that are on the way stay the same in
either case, whichever they are. -/
theorem toTarget_walk (h : Heap) (v : HostValue) :
    (∀ x, toTarget h v = .ok x ↔ Unfolds h v x) ∧
      ((∃ x, toTarget h v = .ok x) ↔ h.Convertible v) ∧
      (∀ e, toTarget h v = .error e ↔ ∃ p, h.FirstObstacle [] v p e) ∧
      (∀ e, toTarget h v = .error e → ∃ message, e.toBridge = .conversion message ∧
        (message = "can not convert recursive table to target value" ↔
          ∃ p, h.FirstObstacle [] v p .recursiveTable)) ∧
      ∀ seen, (convert h seen v).2.1 = seen := by
  have hwalk : Walked h [] v (toTarget h v) := walked_convert {} nofun v
  have hok : ∀ x, toTarget h v = .ok x ↔ Unfolds h v x := by
    refine fun x => ⟨fun hx => ?_, fun hx => ?_⟩
    · rcases hwalk with ⟨y, hy, hunfold, -⟩ | ⟨e, he, -⟩
      · rw [hx] at hy
        exact Except.ok.inj hy ▸ hunfold
      · rw [hx] at he
        cases he
    · rcases hwalk with ⟨y, hy, hunfold, -⟩ | ⟨e, -, p, ho⟩
      · rw [hy, hunfold.unique hx]
      · exact absurd ho.1 (Heap.convertible_iff.1 hx.convertible p e)
  have herror : ∀ e, toTarget h v = .error e ↔ ∃ p, h.FirstObstacle [] v p e := by
    refine fun e => ⟨fun he => ?_, fun ⟨p, ho⟩ => ?_⟩
    · rcases hwalk with ⟨y, hy, -⟩ | ⟨e', he', p, ho⟩
      · rw [he] at hy
        cases hy
      · rw [he] at he'
        exact ⟨p, Except.error.inj he' ▸ ho⟩
    · rcases hwalk with ⟨y, -, -, hno⟩ | ⟨e', he', p', ho'⟩
      · exact absurd ho.1 (hno p e)
      · rw [he', (ho'.unique ho).2]
  refine ⟨hok, ⟨fun ⟨x, hx⟩ => ((hok x).1 hx).convertible, fun hv => ?_⟩, herror, ?_,
    fun seen => (convert h seen v).2.2⟩
  · rcases hwalk with ⟨y, hy, -⟩ | ⟨e, -, p, ho⟩
    · exact ⟨y, hy⟩
    · exact absurd ho.1 (Heap.convertible_iff.1 hv p e)
  · intro e he
    obtain ⟨p, ho⟩ := (herror e).1 he
    refine ⟨e.message, rfl, (message_eq_iff ho.1).trans ⟨fun heq => ⟨p, heq ▸ ho⟩, ?_⟩⟩
    rintro ⟨q, hq⟩
    exact (ho.unique hq).2

end Marshal
end CommandBridge
