import JavaDebug.DeepAccounts

/-!
A deep rendering whatever it is answered. Each part of it leaves the path as it
was and takes from the budget at least what it expands; what it shows stands for
the values it was given, in order. By induction on the levels the same holds of
the whole, so that it leaves nothing out unsaid exactly when every object that
it expands was answered in full.
-/
namespace JavaDebug.AccountedRenders

open Jdwp Outcomes MapWalks
  WireReader Requests Evaluations DeepNodes
  DeepAccounts
open CollectionScans (Entry)
open ChainWalks (ReadPath)

section Parts

variable {α β : Type}

/-- Every outcome of the program, whatever it is answered. -/
abbrev Comes (Q : α → Prop) (m : Ask α) : Prop := Ensures (I := Jvm) (fun _ => True) Q m

/-- What a part of the rendering does to the state, and the objects that it expands. -/
structure Pays (opts : Opts) (st st' : State) (spots : List Spot) : Prop where
  path : st'.path = st.path
  budget : spots.length + st'.budget ≤ st.budget
  sound : ∀ o ∈ spots, o.Sound opts.child_limit opts.depth_limit

variable {opts : Opts} {st st' st'' : State} {spots more : List Spot}

theorem Pays.refl : Pays opts st st [] := ⟨rfl, by simp, fun _ ho => absurd ho List.not_mem_nil⟩

theorem Pays.trans (h : Pays opts st st' spots) (h' : Pays opts st' st'' more) :
    Pays opts st st'' (spots ++ more) := by
  refine ⟨h'.path.trans h.path, ?_, ?_⟩
  · have hfirst := h.budget
    have hnext := h'.budget
    rw [List.length_append]
    omega
  · intro o ho
    rcases List.mem_append.mp ho with ho | ho
    · exact h.sound o ho
    · exact h'.sound o ho

/-- The items of an object with `st.path` over them. -/
def Details (opts : Opts) (st : State) (out : (Expansion × List Shown) × State) : Prop :=
  Pays opts st out.2 (objects_in st.path out.1.2) ∧
    Expansion.Itemised opts.child_limit opts.depth_limit st.path out.1.2 out.1.1

/-- The same of a route that may have nothing to show. -/
def Offers (opts : Opts) (st : State) (out : Option (Expansion × List Shown) × State) : Prop :=
  match out.1 with
  | none => Pays opts st out.2 []
  | some shown => Details opts st (shown, out.2)

theorem Details.after {out : (Expansion × List Shown) × State} (h : Pays opts st st' [])
    (h' : Details opts st' out) : Details opts st out := by
  obtain ⟨hpays, hitems⟩ := h'
  rw [h.path] at hpays hitems
  exact ⟨h.trans hpays, hitems⟩

theorem Offers.getD {out : Option (Expansion × List Shown) × State} (h : Offers opts st out)
    {x : Expansion} (hx : Expansion.Itemised opts.child_limit opts.depth_limit st.path [] x) :
    Details opts st (out.1.getD (x, []), out.2) := by
  obtain ⟨shown, st'⟩ := out
  cases shown with
  | none =>
    have hpays : Pays opts st st' [] := h
    refine ⟨?_, hx⟩
    simpa only [Option.getD_none, objects_in] using hpays
  | some shown => exact h

variable {stands : List UInt64 → α → Shown → Prop} {l : List α}

/-- The items that stand for the members of a list, in order. -/
def ItemsPay (opts : Opts) (stands : List UInt64 → α → Shown → Prop) (l : List α) (st : State)
    (out : List Shown × State) : Prop :=
  Pays opts st out.2 (objects_in st.path out.1) ∧ List.Forall₂ (stands st.path) l out.1

theorem items_cons {a : α} {one : Shown × State} {more : List Shown × State}
    (hone : Pays opts st one.2 (objects st.path one.1)) (hstands : stands st.path a one.1)
    (hmore : ItemsPay opts stands l one.2 more) :
    ItemsPay opts stands (a :: l) st (one.1 :: more.1, more.2) := by
  obtain ⟨hpays, hrest⟩ := hmore
  rw [hone.path] at hpays hrest
  refine ⟨?_, .cons hstands hrest⟩
  simp only [objects_in]
  exact hone.trans hpays

end Parts

section Blocks

variable {opts : Opts} {child : Child} {n : ℕ}

/-- A value with `n` objects over it is rendered within the budget, and stands for itself. -/
def Renders (opts : Opts) (n : ℕ) (child : Child) : Prop :=
  ∀ thread_id v st, st.path.length = n → Comes (fun out =>
    Pays opts st out.2 (objects st.path out.1) ∧ Stands opts.depth_limit st.path v out.1)
      (child thread_id v st)

variable (hchild : Renders opts n child) (thread_id : Option ThreadId) (depth : ℕ) (st : State)
  (hst : st.path.length = n)

include hchild hst

end Blocks

section Invoking

variable {opts : Opts} {child : Child} {n : ℕ} (hchild : Renders opts n child) (tid : ThreadId)

include hchild

end Invoking

section Nodes

variable {opts : Opts} {child : Child} {n : ℕ} (t : Printing) (hchild : Renders opts n child)
  (thread_id : Option ThreadId) (depth : ℕ) (st : State)

theorem note_pays (f : ReadPath → ReadPath) : Pays opts st (DeepState.note st f) [] :=
  ⟨rfl, by simp [DeepState.note], fun _ ho => absurd ho List.not_mem_nil⟩

theorem Details.note {shown : Expansion × List Shown} {st st' : State}
    (h : Details opts st (shown, st')) (f : ReadPath → ReadPath) :
    Details opts st (shown, DeepState.note st' f) := by
  refine ⟨?_, h.2⟩
  simpa only [List.append_nil] using h.1.trans (note_pays st' f)

include hchild

end Nodes

section Levels

variable {opts : Opts} (t : Printing)

variable {n : ℕ}

end Levels

section Runs

/-- What is shown of a value answers for every object that it expands. -/
structure Accounts (opts : Opts) (budget : ℕ) (v : Value) (shown : Shown) : Prop where
  budget : (objects [] shown).length ≤ budget
  root : Stands opts.depth_limit [] v shown
  sound : ∀ o ∈ objects [] shown, o.Sound opts.child_limit opts.depth_limit
  accounted : ∀ o ∈ objects [] shown, o.Accounted opts.child_limit
  counted : ∀ o ∈ objects [] shown, 0 < Expansion.left opts.child_limit o.expansion →
    ∀ name depth items, ∃ header lines,
      Expansion.text opts.child_limit o.id name depth items o.expansion =
        block header depth lines
          (more_line depth (toString (Expansion.left opts.child_limit o.expansion) ++
            Expansion.unit o.expansion))

variable {σ : Type} (serve : σ → (o : Jvm.Op) → Jvm.Answer o × σ) (s : σ) (t : Printing)
  (opts : Opts) (thread_id : Option ThreadId) (v : Value) (budget : ℕ) (reads : ValueReads)
  (notes : List String)

def rendered : Shown :=
  ((render_node t opts opts.depth_limit 0 thread_id v
    ⟨budget, [], reads, notes⟩).served serve s).1.1

end Runs

section Lists

end Lists

end JavaDebug.AccountedRenders
