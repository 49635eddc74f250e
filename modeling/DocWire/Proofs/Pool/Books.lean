import DocWire.Proofs.Pool.Outcome

namespace DocWire

-- An instance under the number that it was given when it was created. It keeps the number, whatever
-- its holder does to it.
structure Numbered (α : Type) where
  number : Nat
  content : α

-- What the hooks of a manager work on, with the count of the instances that were created and the
-- numbers of those that were disposed of, in order.
structure Books (ω : Type) where
  outside : ω
  created : Nat
  cleaned : List Nat

def Books.empty {ω : Type} (outside : ω) : Books ω := ⟨outside, 0, []⟩

variable {ω α ε : Type}

-- A manager that keeps books of what it creates and disposes of.
def Manager.booked (manager : Manager (StateM ω) α ε) :
    Manager (StateM (Books ω)) (Numbered α) ε where
  create := ExceptT.mk fun b =>
    match manager.create.run b.outside with
    | (.ok a, outside) =>
      (.ok ⟨b.created, a⟩, { b with outside := outside, created := b.created + 1 })
    | (.error reason, outside) => (.error reason, { b with outside := outside })
  validate r := fun b =>
    match manager.validate r.content b.outside with
    | (valid, outside) => (valid, { b with outside := outside })
  cleanup r := fun b =>
    match manager.cleanup r.content b.outside with
    | (_, outside) => ((), { b with outside := outside, cleaned := b.cleaned ++ [r.number] })

namespace Manager

variable (manager : Manager (StateM ω) α ε)

theorem booked_create (b : Books ω) :
    manager.booked.create.run b =
      match manager.create.run b.outside with
      | (.ok a, outside) =>
        (.ok ⟨b.created, a⟩, { b with outside := outside, created := b.created + 1 })
      | (.error reason, outside) => (.error reason, { b with outside := outside }) :=
  rfl

theorem booked_create_ok {b b' : Books ω} {r : Numbered α}
    (h : manager.booked.create.run b = (.ok r, b')) :
    r.number = b.created ∧ ∃ outside, b' = ⟨outside, b.created + 1, b.cleaned⟩ := by
  rw [booked_create] at h
  split at h
  · next a outside hcreate =>
    cases h
    exact ⟨rfl, outside, rfl⟩
  · cases h

theorem booked_create_error {b b' : Books ω} {reason : ε}
    (h : manager.booked.create.run b = (.error reason, b')) :
    ∃ outside, b' = { b with outside := outside } := by
  rw [booked_create] at h
  split at h
  · cases h
  · next e outside hcreate =>
    cases h
    exact ⟨outside, rfl⟩

theorem booked_validate (r : Numbered α) (b : Books ω) :
    ∃ outside, (manager.booked.validate r b).2 = { b with outside := outside } :=
  ⟨_, rfl⟩

theorem booked_cleanup (r : Numbered α) (b : Books ω) :
    ∃ outside, (manager.booked.cleanup r b).2 = ⟨outside, b.created, b.cleaned ++ [r.number]⟩ :=
  ⟨_, rfl⟩

theorem booked_cleanups (rs : List (Numbered α)) (b : Books ω) :
    ∃ outside, rs.foldl (fun b r => (manager.booked.cleanup r b).2) b =
      ⟨outside, b.created, b.cleaned ++ rs.map Numbered.number⟩ := by
  induction rs generalizing b with
  | nil => exact ⟨b.outside, by rw [List.foldl_nil, List.map_nil, List.append_nil]⟩
  | cons r rest ih =>
      obtain ⟨outside, hcleanup⟩ := manager.booked_cleanup r b
      obtain ⟨outside', hrest⟩ := ih (manager.booked.cleanup r b).2
      refine ⟨outside', ?_⟩
      rw [List.foldl_cons, hrest, hcleanup, List.append_assoc]
      rfl

-- Instances that are created in a row are numbered in a row.
theorem booked_createMany (count : Nat) (b : Books ω) :
    ∃ made outside, ((Pool.createMany manager.booked count).run b).2 =
        ⟨outside, b.created + made, b.cleaned⟩ ∧
      ∀ rs, ((Pool.createMany manager.booked count).run b).1 = .ok rs →
        made = count ∧ rs.map Numbered.number = List.range' b.created count := by
  induction count generalizing b with
  | zero =>
      refine ⟨0, b.outside, rfl, fun rs hrs => ?_⟩
      cases hrs
      exact ⟨rfl, rfl⟩
  | succ count ih =>
      rw [Pool.createMany_succ_run]
      rcases hcreate : manager.booked.create.run b with ⟨outcome, b'⟩
      cases outcome with
      | error reason =>
          obtain ⟨outside, rfl⟩ := manager.booked_create_error hcreate
          exact ⟨0, outside, rfl, nofun⟩
      | ok r =>
          obtain ⟨hnumber, outside, rfl⟩ := manager.booked_create_ok hcreate
          obtain ⟨made, outside', hbooks, hmany⟩ := ih ⟨outside, b.created + 1, b.cleaned⟩
          dsimp only
          rcases hrest : (Pool.createMany manager.booked count).run
            ⟨outside, b.created + 1, b.cleaned⟩ with ⟨outcome, b''⟩
          rw [hrest] at hbooks hmany
          dsimp only at hbooks
          subst hbooks
          refine ⟨made + 1, outside', ?_, fun rs hrs => ?_⟩
          · cases outcome with
            | error reason => simp only [Nat.add_assoc, Nat.add_comm 1]
            | ok rest => simp only [Nat.add_assoc, Nat.add_comm 1]
          · cases outcome with
            | error reason => cases hrs
            | ok rest =>
                cases hrs
                obtain ⟨hmade, hnumbers⟩ := hmany rest rfl
                refine ⟨congrArg (· + 1) hmade, ?_⟩
                rw [List.map_cons, hnumbers, hnumber, List.range'_succ]

-- A pool that starts has the least number of instances in it, all of them idle.
theorem booked_start_ok {config : PoolConfig} {b b' : Books ω} {pool : Pool (Numbered α)}
    (h : Pool.start manager.booked config b = (.ok pool, b')) :
    ∃ idle outside, pool = .ofIdle config idle ∧
      idle.map Numbered.number = List.range' b.created config.minSize ∧
      b' = ⟨outside, b.created + config.minSize, b.cleaned⟩ := by
  obtain ⟨made, outside, hbooks, hmany⟩ := manager.booked_createMany config.minSize b
  rw [Pool.start_run] at h
  rcases hrun : (Pool.createMany manager.booked config.minSize).run b with ⟨outcome, books⟩
  rw [hrun] at h hbooks hmany
  cases outcome with
  | error reason => cases h
  | ok idle =>
      obtain ⟨rfl, hnumbers⟩ := hmany idle rfl
      cases h
      exact ⟨idle, outside, rfl, hnumbers, hbooks⟩

-- One that does not start has disposed of nothing.
theorem booked_start_error {config : PoolConfig} {b b' : Books ω} {e : PoolError ε}
    (h : Pool.start manager.booked config b = (.error e, b')) :
    ∃ made outside, b' = ⟨outside, b.created + made, b.cleaned⟩ := by
  obtain ⟨made, outside, hbooks, _⟩ := manager.booked_createMany config.minSize b
  rw [Pool.start_run] at h
  rcases hrun : (Pool.createMany manager.booked config.minSize).run b with ⟨outcome, books⟩
  rw [hrun] at h hbooks
  cases outcome with
  | error reason =>
      cases h
      exact ⟨made, outside, hbooks⟩
  | ok idle => cases h

end Manager

end DocWire
