import StackScript.Proofs.Machine.Agreement
import StackScript.Proofs.Machine.Alike

/-!
Running code again on the same machine. The variables that the first run leaves are there
from the start of the next one. Where the hosts keep nothing in mind, that makes no
difference: a variable that the first run has read or assigned to had been defined in it
before, and one that it could not find is defined by none of the runs. So the next run
takes the same steps with the values of the last run behind those of its own.
-/

namespace StackScript

variable {σ : Type}

/-- What a host does to the stack and how many values it answers with depend on the call
alone. It may still keep a record of its calls. -/
def Hosts.Stateless (hosts : Hosts σ) : Prop :=
  ∀ name f, hosts.find? name = some f → ∀ call state state',
    (f call state).stack = (f call state').stack ∧
      (f call state).pushed = (f call state').pushed

namespace Globals

/-- The variables, in the order of their first definition. -/
def names (g : Globals) : List String := g.entries.map Prod.fst

/-- The variables of `last`, with the values of `g` for those that `g` has. -/
def atop (g last : Globals) : Globals :=
  ⟨last.entries.map fun entry => (entry.1, (g.find? entry.1).getD entry.2)⟩

section Entries

variable {name : String} {v : Value} {entries : List (String × Value)}

theorem lookup_of_nodup {entry : String × Value} (hnodup : (entries.map Prod.fst).Nodup)
    (hmem : entry ∈ entries) : entries.lookup entry.1 = some entry.2 := by
  induction entries with
  | nil => cases hmem
  | cons first rest ih =>
    obtain ⟨key, w⟩ := first
    obtain ⟨hfirst, hrest⟩ := List.nodup_cons.1 hnodup
    rcases List.mem_cons.1 hmem with rfl | hmem
    · exact List.lookup_cons_self
    · have hkey : entry.1 ∈ rest.map Prod.fst := List.mem_map_of_mem hmem
      have hne : entry.1 ≠ key := fun heq => hfirst (heq ▸ hkey)
      rw [List.lookup_cons, beq_eq_false_iff_ne.2 hne]
      exact ih hrest hmem

theorem names_putIn (name : String) (v : Value) (entries : List (String × Value)) :
    (putIn name v entries).map Prod.fst =
      if name ∈ entries.map Prod.fst then entries.map Prod.fst
      else entries.map Prod.fst ++ [name] := by
  induction entries with
  | nil => simp [putIn]
  | cons entry rest ih =>
    by_cases h : entry.1 = name
    · simp [putIn, h]
    · have h' : name ≠ entry.1 := Ne.symm h
      by_cases hmem : name ∈ rest.map Prod.fst
      · rw [if_pos hmem] at ih
        simp [putIn, h, ih, List.mem_cons, hmem]
      · rw [if_neg hmem] at ih
        simp [putIn, h, ih, List.mem_cons, hmem, h']

/-- Entries that give a variable its value in a table give it a new one if the table does. -/
theorem putIn_map (f g : String → Option Value) (hname : name ∈ entries.map Prod.fst)
    (hnodup : (entries.map Prod.fst).Nodup)
    (hput : ∀ other, f other = if other = name then some v else g other) :
    entries.map (fun entry => (entry.1, (f entry.1).getD entry.2)) =
      putIn name v (entries.map fun entry => (entry.1, (g entry.1).getD entry.2)) := by
  have hother {part : List (String × Value)} (hpart : name ∉ part.map Prod.fst) :
      part.map (fun entry => (entry.1, (f entry.1).getD entry.2)) =
        part.map fun entry => (entry.1, (g entry.1).getD entry.2) := by
    refine List.map_congr_left fun entry hentry => ?_
    have hne : entry.1 ≠ name := fun heq => hpart (heq ▸ List.mem_map_of_mem hentry)
    rw [hput, if_neg hne]
  induction entries with
  | nil => cases hname
  | cons entry rest ih =>
    obtain ⟨hentry, hrest⟩ := List.nodup_cons.1 hnodup
    rw [List.map_cons, List.map_cons, putIn, hput]
    by_cases h : entry.1 = name
    · subst h
      rw [if_pos rfl, if_pos rfl, Option.getD_some, hother hentry]
    · have hmem : name ∈ rest.map Prod.fst := by
        rcases List.mem_cons.1 hname with heq | hmem
        · exact absurd heq.symm h
        · exact hmem
      rw [if_neg h, if_neg h, ih hmem hrest]

end Entries

variable {g last : Globals} {name : String} {v : Value}

theorem find?_eq_none_iff : g.find? name = none ↔ name ∉ g.names := by
  rw [find?, List.lookup_eq_none_iff, names]
  simp only [List.mem_map, bne_iff_ne, not_exists, not_and]
  exact ⟨fun h entry hmem heq => h entry hmem heq.symm,
    fun h entry hmem heq => h entry hmem heq.symm⟩

theorem mem_names_of_find? (h : g.find? name = some v) : name ∈ g.names := by
  refine Decidable.byContradiction fun hnot => ?_
  rw [find?_eq_none_iff.2 hnot] at h
  cases h

theorem names_put (g : Globals) (name : String) (v : Value) :
    (g.put name v).names = if name ∈ g.names then g.names else g.names ++ [name] :=
  names_putIn name v g.entries

theorem mem_names_put (g : Globals) (name : String) (v : Value) :
    name ∈ (g.put name v).names := by
  rw [names_put]
  split
  · assumption
  · exact List.mem_append_right _ (List.mem_singleton_self name)

theorem find?_atop (g last : Globals) (name : String) :
    (g.atop last).find? name = (last.find? name).map (g.find? name).getD := by
  obtain ⟨entries⟩ := last
  unfold atop find?
  induction entries with
  | nil => rfl
  | cons entry rest ih =>
    rw [List.map_cons, List.lookup_cons, List.lookup_cons]
    cases h : name == entry.1 with
    | true =>
      obtain rfl := eq_of_beq h
      rfl
    | false => exact ih

theorem empty_atop (last : Globals) : ({} : Globals).atop last = last := by
  obtain ⟨entries⟩ := last
  exact congrArg Globals.mk (List.map_id entries)

theorem atop_self (h : last.names.Nodup) : last.atop last = last := by
  obtain ⟨entries⟩ := last
  have hsame : ∀ entry ∈ entries,
      (entry.1, ((⟨entries⟩ : Globals).find? entry.1).getD entry.2) = id entry := by
    intro entry hentry
    have hfind : (⟨entries⟩ : Globals).find? entry.1 = some entry.2 := lookup_of_nodup h hentry
    rw [hfind]
    rfl
  exact congrArg Globals.mk ((List.map_congr_left hsame).trans (List.map_id entries))

theorem atop_put (hname : name ∈ last.names) (hnodup : last.names.Nodup) :
    (g.put name v).atop last = (g.atop last).put name v :=
  congrArg Globals.mk (putIn_map (g.put name v).find? g.find? hname hnodup
    (g.find?_put name · v))

/-- A variable that is there is there later on, with the same value. -/
theorem find?_atop_of_some (hv : g.find? name = some v) (hnames : g.names ⊆ last.names) :
    (g.atop last).find? name = some v := by
  have hlast : last.find? name ≠ none := fun hnone =>
    find?_eq_none_iff.1 hnone (hnames (mem_names_of_find? hv))
  obtain ⟨w, hw⟩ := Option.ne_none_iff_exists'.1 hlast
  rw [find?_atop, hw, hv]
  rfl

/-- One that is not there when a run fails is not there later on. -/
theorem find?_atop_of_none (hv : g.find? name = none)
    (hnames : last.names ⊆ g.names) : (g.atop last).find? name = none := by
  have hlast : last.find? name = none := find?_eq_none_iff.2 fun hmem =>
    find?_eq_none_iff.1 hv (hnames hmem)
  rw [find?_atop, hlast]
  rfl

/-- From one time in a run to a later one no variable is lost, and none comes up twice. -/
structure Before (g g' : Globals) : Prop where
  names : g.names ⊆ g'.names
  nodup : g.names.Nodup → g'.names.Nodup

theorem Before.refl (g : Globals) : g.Before g := ⟨List.Subset.refl _, id⟩

theorem Before.trans {g' g'' : Globals} (h : g.Before g') (h' : g'.Before g'') : g.Before g'' :=
  ⟨List.Subset.trans h.names h'.names, fun hnodup => h'.nodup (h.nodup hnodup)⟩

theorem before_put (g : Globals) (name : String) (v : Value) : g.Before (g.put name v) := by
  constructor
  · rw [names_put]
    split
    · exact List.Subset.refl _
    · exact List.subset_append_left _ _
  · intro hnodup
    rw [names_put]
    split
    · exact hnodup
    next hname =>
      refine List.nodup_append.2 ⟨hnodup, List.pairwise_singleton _ name, ?_⟩
      rintro other hother _ hmem rfl
      obtain rfl := List.mem_singleton.1 hmem
      exact hname hother

end Globals

namespace Machine

/-- The machine at the same time of a later run: the variables of `last` have been there from
the start, and what the hosts share may be anything. -/
def later (last : Globals) (host : σ) (m : Machine σ) : Machine σ :=
  m.elsewhere (m.globals.atop last) host

/-- A step that starts with the variables of `g` loses none of them. In a run that ends with
the variables of `last`, the same step of a later run does the same. -/
def Repeats (g last : Globals) : Progress σ → Progress σ → Prop
  | .next m, p => g.Before m.globals ∧
    (m.globals.names ⊆ last.names → ∃ host, p = .next (m.later last host))
  | .finished m, p => m.globals = g ∧ ∃ host, p = .finished (m.later last host)
  | .failed m report, p => m.globals = g ∧
    (last.names ⊆ g.names → ∃ host, p = .failed (m.later last host) report)

section Steps

variable {s : Setting σ} {m m' : Machine σ} {last : Globals} {host : σ}

theorem goesAlike_later (m : Machine σ) (last : Globals) (host : σ) :
    m.GoesAlike (m.globals.atop last) host (Repeats m.globals last) where
  failed _ _ := ⟨rfl, fun _ => ⟨host, rfl⟩⟩
  next _ _ _ := ⟨.refl _, fun _ => ⟨host, rfl⟩⟩
  finished _ := ⟨rfl, host, rfl⟩

/-- A host that keeps nothing in mind does the same again. -/
theorem repeats_call (hhosts : s.hosts.Stateless) (m : Machine σ) (count : Nat)
    (wantsValue : Bool) :
    Repeats m.globals last (call s m count wantsValue)
      (call s (m.later last host) count wantsValue) := by
  have halike := goesAlike_later m last host
  refine halike.withTop rfl fun callee _ => ?_
  let below : Machine σ := { m with stack := m.stack.pop }
  change Repeats m.globals last
    (if m.stack.pop.size < count then underflow s below else _)
    (if m.stack.pop.size < count then underflow s (below.later last host) else _)
  by_cases hshort : m.stack.pop.size < count
  · rw [if_pos hshort, if_pos hshort]
    exact halike.failed m.stack.pop _
  rw [if_neg hshort, if_neg hshort]
  cases callee with
  | string name =>
    dsimp only
    cases hf : s.hosts.find? name with
    | none => exact halike.failed m.stack.pop _
    | some f =>
      let seen : HostCall := ⟨m.stack.pop, m.stack.pop.size - count, count⟩
      obtain ⟨hreply, hpushed⟩ := hhosts name f hf seen host m.host
      have hsettle : settleReply (f seen host) seen.base count wantsValue =
          settleReply (f seen m.host) seen.base count wantsValue := by
        unfold settleReply
        rw [hreply, hpushed]
      refine ⟨.refl _, fun _ => ⟨(f seen host).state, ?_⟩⟩
      exact congrArg (fun stack => Progress.next { m.later last (f seen host).state with
        pc := m.pc + 1, stack }) hsettle
  | function entry =>
    change Repeats m.globals last
      (if s.limits.callDepth ≤ m.frames.size then _ else _)
      (if s.limits.callDepth ≤ m.frames.size then _ else _)
    split
    · exact halike.failed m.stack.pop _
    · exact halike.next _ m.stack.pop _
  | _ => exact halike.failed m.stack.pop _

theorem repeats_put (hnodup : last.names.Nodup) (m : Machine σ) (name : String) (v : Value) :
    Repeats m.globals last (goOn { m with globals := m.globals.put name v })
      (goOn { m.later last host with globals := (m.later last host).globals.put name v }) := by
  refine ⟨Globals.before_put m.globals name v, fun hnames => ⟨host, ?_⟩⟩
  have hname : name ∈ last.names := hnames (Globals.mem_names_put m.globals name v)
  exact congrArg (fun globals => Progress.next { m.later last host with pc := m.pc + 1, globals })
    (Globals.atop_put hname hnodup).symm

theorem repeats_execute (hhosts : s.hosts.Stateless) (hnodup : last.names.Nodup)
    (m : Machine σ) (c : Command) :
    Repeats m.globals last (execute s m c) (execute s (m.later last host) c) := by
  have halike := goesAlike_later m last host
  obtain ⟨opcode, operand⟩ := c
  cases opcode with
  | pushGlobal =>
    simp only [execute]
    refine halike.withName rfl _ fun name => ?_
    rw [globals_elsewhere]
    cases hv : m.globals.find? name with
    | some v =>
      refine ⟨.refl _, fun hnames => ⟨host, ?_⟩⟩
      rw [Globals.find?_atop_of_some hv hnames]
      rfl
    | none =>
      refine ⟨rfl, fun hnames => ⟨host, ?_⟩⟩
      rw [Globals.find?_atop_of_none hv hnames]
      rfl
  | defineGlobal =>
    simp only [execute]
    refine halike.withTop rfl fun v _ => ?_
    refine (halike.lower m.stack.pop).withName rfl _ fun name => ?_
    exact repeats_put hnodup { m with stack := m.stack.pop } name v
  | setGlobal =>
    simp only [execute]
    refine halike.withTop rfl fun v _ => ?_
    refine (halike.lower m.stack.pop).withName rfl _ fun name => ?_
    rw [globals_elsewhere]
    cases hv : m.globals.find? name with
    | some w =>
      obtain ⟨hbefore, hrepeats⟩ := repeats_put hnodup { m with stack := m.stack.pop } name v
      refine ⟨hbefore, fun hnames => ?_⟩
      rw [Globals.find?_atop_of_some hv (List.Subset.trans hbefore.names hnames)]
      exact hrepeats hnames
    | none =>
      refine ⟨rfl, fun hnames => ⟨host, ?_⟩⟩
      rw [Globals.find?_atop_of_none hv hnames]
      rfl
  | callDiscard | callReturn => exact repeats_call hhosts m _ _
  | _ => exact halike.execute rfl rfl

theorem repeats_step (hhosts : s.hosts.Stateless) (hnodup : last.names.Nodup)
    (m : Machine σ) (host : σ) :
    Repeats m.globals last (m.step s) ((m.later last host).step s) :=
  (goesAlike_later m last host).step rfl rfl (goesAlike_later m.started last host).toStopsAlike
    fun c _ => repeats_execute hhosts hnodup m.started c

/-- No variable is lost in a run. -/
theorem before_proceed (hhosts : s.hosts.Stateless) {n : Nat} {report : Array Diagnostic}
    (h : proceed s n m = .ended m' report) : m.globals.Before m'.globals := by
  induction n generalizing m with
  | zero => cases h
  | succ n ih =>
    -- Only what a step does to the variables is of interest here, so any later run will do.
    have hnodup : (Globals.names {}).Nodup := List.nodup_nil
    have hstep := repeats_step hhosts hnodup m m.host
    rw [proceed] at h
    cases hp : m.step s with
    | next m₁ =>
      rw [hp] at h hstep
      exact hstep.1.trans (ih h)
    | finished m₁ | failed m₁ report =>
      rw [hp] at h hstep
      cases h
      rw [hstep.1]
      exact .refl _

/-- A later run does the same as a run that has ended. -/
theorem proceed_later (hhosts : s.hosts.Stateless) {n : Nat} {report : Array Diagnostic}
    (h : proceed s n m = .ended m' report) (hnodup : m'.globals.names.Nodup) (host : σ) :
    ∃ host', proceed s n (m.later m'.globals host) =
        .ended (m'.later m'.globals host') report ∧
      calls s n (m.later m'.globals host) = calls s n m := by
  induction n generalizing m host with
  | zero => cases h
  | succ n ih =>
    have hstep := repeats_step hhosts hnodup m host
    have hcall : hostCall? s (m.later m'.globals host) = hostCall? s m := rfl
    rw [proceed] at h
    rw [proceed, calls, calls, hcall]
    cases hp : m.step s with
    | next m₁ =>
      rw [hp] at h hstep
      -- The step does the same again if no variable comes up in it that is not there at the end,
      -- and none is lost on the way to the end.
      obtain ⟨host₁, hagain⟩ := hstep.2 (before_proceed hhosts h).names
      obtain ⟨host', hrun, hcalls⟩ := ih h host₁
      rw [hagain]
      dsimp only
      rw [hrun, hcalls]
      exact ⟨host', rfl, rfl⟩
    | finished m₁ =>
      rw [hp] at h hstep
      cases h
      obtain ⟨-, host₁, hagain⟩ := hstep
      rw [hagain]
      exact ⟨host₁, rfl, rfl⟩
    | failed m₁ report =>
      rw [hp] at h hstep
      cases h
      obtain ⟨hglobals, hrepeats⟩ := hstep
      obtain ⟨host₁, hagain⟩ := hrepeats (hglobals ▸ List.Subset.refl _)
      rw [hagain]
      exact ⟨host₁, rfl, rfl⟩

theorem run_unique {n k : Nat} {m₁ m₂ : Machine σ} {report₁ report₂ : Array Diagnostic}
    (h₁ : run s n m = .ended m₁ report₁) (h₂ : run s k m = .ended m₂ report₂) : m₁ = m₂ := by
  unfold run at h₁ h₂
  cases hcheck : s.code.check with
  | error fault =>
    rw [hcheck] at h₁ h₂
    cases h₁.symm.trans h₂
    rfl
  | ok _ =>
    rw [hcheck] at h₁ h₂
    exact (proceed_unique h₁ h₂).1

end Steps

/-- A machine on which the code has been run to its end, once or several times. What the
hosts share may have been changed in between. -/
inductive Rerun (s : Setting σ) (m : Machine σ) : Machine σ → Prop
  | once {m' : Machine σ} {n : Nat} {report : Array Diagnostic} (host : σ)
      (hend : run s n m = .ended m' report) : Rerun s m { m' with host }
  | again {m' m'' : Machine σ} {n : Nat} {report : Array Diagnostic} (host : σ)
      (hrerun : Rerun s m m') (hend : run s n m' = .ended m'' report) :
      Rerun s m { m'' with host }

section Reruns

variable {s : Setting σ} {m m' : Machine σ} {n : Nat} {report : Array Diagnostic} {host : σ}

/-- A run that starts with the variables that the first run has left does the same. -/
theorem run_of_globals (hhosts : s.hosts.Stateless)
    (hfirst : run s n { host } = .ended m report) (hglobals : m'.globals = m.globals) :
    ∃ m'', run s n m' = .ended m'' report ∧ m''.stack = m.stack ∧ m''.globals = m.globals ∧
      (behaviour s n m').calls = (behaviour s n { host }).calls := by
  unfold run at hfirst
  unfold behaviour run
  cases hcheck : s.code.check with
  | error fault =>
    rw [hcheck] at hfirst
    cases hfirst
    exact ⟨m'.reset, rfl, rfl, hglobals, rfl⟩
  | ok _ =>
    rw [hcheck] at hfirst
    have hnodup : m.globals.names.Nodup := (before_proceed hhosts hfirst).nodup List.nodup_nil
    have hstart : m'.reset =
        ({ host } : Machine σ).reset.later m.globals m'.host := by
      unfold reset later elsewhere
      rw [Globals.empty_atop, hglobals]
    obtain ⟨host', hrun, hcalls⟩ := proceed_later hhosts hfirst hnodup m'.host
    rw [← hstart] at hrun hcalls
    exact ⟨m.later m.globals host', hrun, rfl, Globals.atop_self hnodup, hcalls⟩

theorem Rerun.globals_eq (hhosts : s.hosts.Stateless)
    (hfirst : run s n { host } = .ended m report) (h : Rerun s { host } m') :
    m'.globals = m.globals := by
  induction h with
  | once _ hend =>
    obtain rfl := run_unique hfirst hend
    rfl
  | again _ _ hend ih =>
    obtain ⟨m'', hrun, -, hsame, -⟩ := run_of_globals hhosts hfirst ih
    obtain rfl := run_unique hrun hend
    exact hsame

end Reruns

/-- Running code again on the same machine changes nothing. If the first run ends, every
later one makes the same calls of the host, ends with the same stack and the same
variables and tells the same. -/
theorem rerun_same {s : Setting σ} {m m' : Machine σ} {n : Nat} {report : Array Diagnostic}
    {host : σ} (hhosts : s.hosts.Stateless) (hfirst : run s n { host } = .ended m report)
    (hrerun : Rerun s { host } m') :
    ∃ m'', run s n m' = .ended m'' report ∧ m''.stack = m.stack ∧ m''.globals = m.globals ∧
      (behaviour s n m').calls = (behaviour s n { host }).calls :=
  run_of_globals hhosts hfirst (hrerun.globals_eq hhosts hfirst)

/-- Code that defines a variable, has the host give it another value and fails where it
looks for one that there is not, run for the third time. -/
theorem rerun_same_failed :
    let code : Code :=
      { instructions := #[⟨.pushNull, .zero⟩, ⟨.defineGlobal, .zero⟩, ⟨.pushGlobal, .zero⟩,
          ⟨.pushString, ⟨1, by decide⟩⟩, ⟨.callReturn, ⟨1, by decide⟩⟩, ⟨.setGlobal, .zero⟩,
          ⟨.pushGlobal, ⟨2, by decide⟩⟩]
        strings := #["x", "f", "y"]
        origins := Array.replicate 7 default }
    let s : Setting Nat := { code, hosts := .counter }
    let m (count : Nat) : Machine Nat :=
      { pc := 6, globals := ⟨[("x", .int 7)]⟩, steps := 7, host := count }
    let report : Array Diagnostic := #[.error default .unknownVariable ["y"]]
    s.hosts.Stateless ∧ run s 7 { host := 0 } = .ended (m 1) report ∧
      Rerun s { host := 0 } (m 2) ∧
      ∃ m'', run s 7 (m 2) = .ended m'' report ∧ m''.stack = #[] ∧
        m''.globals = ⟨[("x", .int 7)]⟩ ∧
        (behaviour s 7 (m 2)).calls = (behaviour s 7 { host := 0 }).calls := by
  intro code s m report
  have hhosts : s.hosts.Stateless := by
    intro name f hf call state state'
    unfold s Hosts.counter Hosts.find? at hf
    rw [List.lookup_cons] at hf
    split at hf
    · cases hf
      exact ⟨rfl, rfl⟩
    · cases hf
  have hfirst : run s 7 { host := 0 } = .ended (m 1) report := by decide +kernel
  have hsecond : run s 7 (m 1) = .ended (m 2) report := by decide +kernel
  have hrerun : Rerun s { host := 0 } (m 2) := .again 2 (.once 1 hfirst) hsecond
  exact ⟨hhosts, hfirst, hrerun, rerun_same hhosts hfirst hrerun⟩

end Machine

end StackScript
