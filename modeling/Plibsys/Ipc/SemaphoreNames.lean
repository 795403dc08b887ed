/-
  Which string `p_semaphore_new` makes the key of a semaphore from, on each platform.

  On Windows the suffix is copied over the name instead of being appended to it: all semaphores
  have the same key.
-/
import Plibsys.Ipc.PosixSemaphore
import Plibsys.Ipc.SysvSemaphore
import Plibsys.Ipc.WinSemaphore

namespace Plibsys

open Programs Prog CStrings

/-- The implementations of the semaphores. -/
inductive SemaphoreImpl where
  | posix
  | sysv
  | windows
  deriving DecidableEq, Repr

/-- The content of `new_name` in `p_semaphore_new`. -/
def semaphoreNewName : SemaphoreImpl → List UInt8 → List UInt8
  | .posix, name | .sysv, name =>
    let new_name := List.replicate (name.length + semSuffix.length + 1) 0
    string (strcat (strcpy new_name name) semSuffix)
  | .windows, name => Windows.semaphoreNewName name

/-- Every handle that `p_semaphore_new` returns for the name has the key of the string, whatever the
    system answers to its calls. -/
def SemaphoreKeyFrom (pf : Platform) (name str : List UInt8) : SemaphoreImpl → Prop
  | .posix => ∀ fuel init_val mode, (Posix.pSemaphoreNew pf fuel name init_val mode).Returns fun r =>
    ∀ sem, r = .ok sem → sem.platform_key.map PString.chars = some (platformKey pf str true)
  | .sysv => ∀ init_val mode, (Sysv.pSemaphoreNew pf name init_val mode).Returns fun r =>
    ∀ sem, r = .ok sem → sem.platform_key.map PString.chars = some (platformKey pf str false)
  | .windows => ∀ init_val mode, (Windows.pSemaphoreNew pf name init_val mode).Returns fun r =>
    ∀ sem, r = .ok sem → sem.platform_key.map PString.chars = some (ipcHash pf str)

variable (pf : Platform) {name : List UInt8} {α : Type}

/-! ## The string -/

theorem nul_notMem_semSuffix : 0 ∉ semSuffix := by decide

theorem semaphoreNewName_windows (name : List UInt8) : semaphoreNewName .windows name = semSuffix := by
  rw [semaphoreNewName, Windows.semaphoreNewName, string_strcpy, string_eq_self nul_notMem_semSuffix]

theorem semaphoreNewName_of_ne {impl : SemaphoreImpl} (himpl : impl ≠ .windows) (hname : 0 ∉ name) :
    semaphoreNewName impl name = name ++ semSuffix := by
  have happend : string (strcat (strcpy (List.replicate (name.length + semSuffix.length + 1) 0) name) semSuffix) =
      name ++ semSuffix := by
    rw [string_strcat, string_strcpy, string_eq_self hname, string_eq_self nul_notMem_semSuffix]
  cases impl with
  | posix => exact happend
  | sysv => exact happend
  | windows => exact absurd rfl himpl

/-! ## Calls that fail -/

theorem returns_none {P : α → Prop} : (pure none : SysM (Option α)).Returns fun r => ∀ x, r = some x → P x :=
  .pure (by rintro _ ⟨⟩)

theorem returns_error {P : α → Prop} {e : PError} :
    (pure (.error e) : SysM (Except PError α)).Returns fun r => ∀ x, r = .ok x → P x :=
  .pure (by rintro _ ⟨⟩)

theorem returns_failed {P : α × Except PError Unit → Prop} {x : α} {e : PError} :
    (pure (x, .error e) : SysM (α × Except PError Unit)).Returns fun r => r.2 = .ok () → P r :=
  .pure (by rintro ⟨⟩)

/-! ## The key -/

section
variable {str : List UInt8} {Q : Option PString → Prop}

/-- The key of a string, if memory is allocated. -/
theorem pIpcGetPlatformKey_returns (hstr : str ≠ []) (posix : Bool) :
    (pIpcGetPlatformKey pf str posix).Returns fun key =>
    ∀ k, key = some k → k.chars = platformKey pf str posix := by
  simp only [pIpcGetPlatformKey, ipcHashString_eq pf hstr]
  refine .bind_any fun sha1 => ?_
  cases sha1 with
  | none => exact returns_none
  | some sha1 =>
    refine .bind_any fun context => ?_
    cases context with
    | none => exact .bind_any fun _ => returns_none
    | some context =>
      refine .bind (Q := fun hash_str => hash_str = some (ipcHash pf str)) rfl ?_
      rintro _ rfl
      refine .bind_any fun block => .bind_any fun _ => .bind_any fun _ => ?_
      cases block with
      | none => exact returns_none
      | some block =>
        cases posix with
        | true =>
          refine .bind_any fun path_name => ?_
          cases path_name with
          | none => exact .bind_any fun _ => returns_none
          | some path_name =>
            refine .bind_any fun _ => .pure ?_
            rintro _ ⟨⟩
            rfl
        | false =>
          refine .bind (Q := fun tmp_path => ∀ t, tmp_path = some t →
            t.chars = pf.tmpDir) ?_ fun tmp_path htmp => ?_
          · refine .bind_any fun str' => ?_
            cases str' with
            | none => trivial
            | some str' =>
              refine .bind_any fun ret => ?_
              cases ret with
              | none => exact .bind_any fun _ => returns_none
              | some ret =>
                refine .pure ?_
                rintro _ ⟨⟩
                rfl
          · cases tmp_path with
            | none => trivial
            | some tmp_path =>
              refine .bind_any fun path_name => ?_
              cases path_name with
              | none => exact .bind_any fun _ => .bind_any fun _ => returns_none
              | some path_name =>
                refine .bind_any fun _ => .bind_any fun _ => .pure ?_
                rintro _ ⟨⟩
                exact congrArg (· ++ ipcHash pf str) (htmp tmp_path rfl)

theorem winGetPlatformKey_returns (hstr : str ≠ []) : (Windows.pIpcGetPlatformKey pf str).Returns fun key =>
    ∀ k, key = some k → k.chars = ipcHash pf str := by
  simp only [Windows.pIpcGetPlatformKey, ipcHashString_eq pf hstr]
  refine .bind_any fun sha1 => ?_
  cases sha1 with
  | none => exact returns_none
  | some sha1 =>
    refine .bind_any fun context => ?_
    cases context with
    | none => exact .bind_any fun _ => returns_none
    | some context =>
      refine .bind (Q := fun hash_str => hash_str = some (ipcHash pf str)) rfl ?_
      rintro _ rfl
      refine .bind_any fun block => .bind_any fun _ => .bind_any fun _ => ?_
      cases block with
      | none => exact returns_none
      | some block =>
        refine .pure ?_
        rintro _ ⟨⟩
        rfl

end

/-! ## The handle -/

theorem posixCreateHandle_returns (fuel : ℕ) (sem : Posix.PSemaphore) :
    (Posix.ppSemaphoreCreateHandle fuel sem).Returns fun r =>
      r.2 = .ok () → r.1.platform_key = sem.platform_key ∧ sem.platform_key ≠ none := by
  obtain ⟨block, created, platform_key, hdl, mode, init_val⟩ := sem
  rw [Posix.ppSemaphoreCreateHandle]
  cases platform_key with
  | none => exact returns_failed
  | some key =>
    -- what is done with the result of the last `sem_open`
    have hfailed : ∀ sem e, (do
        let sem ← Posix.ppSemaphoreCleanHandle sem
        return (sem, .error (lastError e "Failed to call sem_open() to create semaphore")) :
          SysM (Posix.PSemaphore × Except PError Unit)).Returns fun r =>
        r.2 = .ok () → r.1.platform_key = some key ∧ some key ≠ none :=
      fun _ _ => .bind_any fun _ => returns_failed
    refine .bind_any fun r => ?_
    cases r with
    | ok hdl => exact .pure fun _ => ⟨rfl, Option.some_ne_none _⟩
    | error e =>
      cases e with
      | EEXIST =>
        cases mode with
        | create =>
          refine .bind_any fun _ => .bind_any fun r => ?_
          cases r with
          | ok hdl => exact .pure fun _ => ⟨rfl, Option.some_ne_none _⟩
          | error e => exact hfailed _ e
        | «open» =>
          refine .bind_any fun r => ?_
          cases r with
          | ok hdl => exact .pure fun _ => ⟨rfl, Option.some_ne_none _⟩
          | error e => exact hfailed _ e
      | _ => exact hfailed _ _

theorem sysvCreateHandle_returns (sem : Sysv.PSemaphore) :
    (Sysv.ppSemaphoreCreateHandle sem).Returns fun r =>
      r.2 = .ok () → r.1.platform_key = sem.platform_key ∧ sem.platform_key ≠ none := by
  rw [Sysv.ppSemaphoreCreateHandle]
  have hfailed : ∀ sem' e message, (Sysv.semaphoreFailed sem' e message).Returns fun r =>
      r.2 = .ok () → r.1.platform_key = sem.platform_key ∧ sem.platform_key ≠ none := fun _ _ _ =>
    .bind_any fun _ => returns_failed
  have hset : ∀ sem' hdl, sem'.platform_key = sem.platform_key → sem.platform_key ≠ none →
      (Sysv.ppSemaphoreSetValue sem' hdl).Returns fun r =>
        r.2 = .ok () → r.1.platform_key = sem.platform_key ∧ sem.platform_key ≠ none := by
    intro sem' hdl hkey hsome
    rw [Sysv.ppSemaphoreSetValue]
    split
    · refine .bind_any fun r => ?_
      cases r with
      | error e => exact hfailed ..
      | ok _ => exact .pure fun _ => ⟨hkey, hsome⟩
    · exact .pure fun _ => ⟨hkey, hsome⟩
  cases hkey : sem.platform_key with
  | none => exact returns_failed
  | some key =>
    rw [hkey] at hfailed hset
    refine .bind_any fun r => ?_
    cases r with
    | error e => exact hfailed ..
    | ok built =>
      refine .bind_any fun r => ?_
      cases r with
      | error e => exact hfailed ..
      | ok unix_key =>
        refine .bind_any fun x => ?_
        obtain ⟨existed, r⟩ := x
        cases r with
        | error e => cases existed <;> exact hfailed ..
        | ok hdl => cases existed <;> exact hset _ _ rfl (Option.some_ne_none _)

theorem winCreateHandle_returns (sem : Windows.PSemaphore) :
    (Windows.ppSemaphoreCreateHandle sem).Returns fun r =>
      r.2 = .ok () → r.1.platform_key = sem.platform_key ∧ sem.platform_key ≠ none := by
  rw [Windows.ppSemaphoreCreateHandle]
  cases hkey : sem.platform_key with
  | none => exact .pure (by rintro ⟨⟩)
  | some key =>
    refine .bind_any fun r => ?_
    cases r with
    | error e => exact .pure (by rintro ⟨⟩)
    | ok hdl => exact .pure fun _ => ⟨rfl, Option.some_ne_none _⟩

theorem map_chars_eq {o o' : Option PString} {key : Path} (hkey : ∀ k, o = some k → k.chars = key)
    (h : o' = o ∧ o ≠ none) : o'.map PString.chars = some key := by
  obtain ⟨rfl, hne⟩ := h
  obtain ⟨k, rfl⟩ := Option.ne_none_iff_exists'.1 hne
  exact congrArg some (hkey k rfl)

/-- The key of every semaphore is made from `new_name`. -/
theorem semaphoreKeyFrom (impl : SemaphoreImpl) (hname : 0 ∉ name) :
    SemaphoreKeyFrom pf name (semaphoreNewName impl name) impl := by
  cases impl with
  | posix =>
    intro fuel init_val mode
    rw [semaphoreNewName_of_ne (by decide) hname, Posix.pSemaphoreNew]
    split
    · exact returns_error
    · refine .bind_any fun ret => ?_
      cases ret with
      | none => exact returns_error
      | some ret =>
        refine .bind_any fun new_name => ?_
        cases new_name with
        | none => exact .bind_any fun _ => returns_error
        | some new_name =>
          refine .bind (pIpcGetPlatformKey_returns pf (append_semSuffix_ne name) true) fun key hkey => ?_
          refine .bind_any fun _ => .bind (posixCreateHandle_returns fuel _) ?_
          rintro ⟨sem, r⟩ hsem
          cases r with
          | error e => exact .bind_any fun _ => returns_error
          | ok _ =>
            refine .pure ?_
            rintro _ ⟨⟩
            exact map_chars_eq hkey (hsem rfl)
  | sysv =>
    intro init_val mode
    rw [semaphoreNewName_of_ne (by decide) hname, Sysv.pSemaphoreNew]
    split
    · exact returns_error
    · refine .bind_any fun ret => ?_
      cases ret with
      | none => exact returns_error
      | some ret =>
        refine .bind_any fun new_name => ?_
        cases new_name with
        | none => exact .bind_any fun _ => returns_error
        | some new_name =>
          refine .bind (pIpcGetPlatformKey_returns pf (append_semSuffix_ne name) false) fun key hkey => ?_
          refine .bind_any fun _ => .bind (sysvCreateHandle_returns _) ?_
          rintro ⟨sem, r⟩ hsem
          cases r with
          | error e => exact .bind_any fun _ => returns_error
          | ok _ =>
            refine .pure ?_
            rintro _ ⟨⟩
            exact map_chars_eq hkey (hsem rfl)
  | windows =>
    intro init_val mode
    have hname' : Windows.semaphoreNewName name = semSuffix := semaphoreNewName_windows name
    have hne : Windows.semaphoreNewName name ≠ [] := by
      rw [hname']
      decide
    rw [Windows.pSemaphoreNew]
    split
    · exact returns_error
    · refine .bind_any fun ret => ?_
      cases ret with
      | none => exact returns_error
      | some ret =>
        refine .bind_any fun new_name => ?_
        cases new_name with
        | none => exact .bind_any fun _ => returns_error
        | some new_name =>
          refine .bind (winGetPlatformKey_returns pf hne) fun key hkey => ?_
          refine .bind_any fun _ => .bind (winCreateHandle_returns _) ?_
          rintro ⟨sem, r⟩ hsem
          cases r with
          | error e => exact .bind_any fun _ => returns_error
          | ok _ =>
            refine .pure ?_
            rintro _ ⟨⟩
            exact map_chars_eq hkey (hsem rfl)

/-- **Distinct names, distinct semaphores, but for Windows**: `p_semaphore_new` makes the keys of two names
    from two different strings, and those of equal names from equal strings, if and only if the
    implementation is not the one for Windows or the names are equal. -/
theorem semaphoreNames_iff (impl : SemaphoreImpl) (name₁ name₂ : List UInt8) (h₁ : 0 ∉ name₁) (h₂ : 0 ∉ name₂) :
    (SemaphoreKeyFrom pf name₁ (semaphoreNewName impl name₁) impl ∧
      SemaphoreKeyFrom pf name₂ (semaphoreNewName impl name₂) impl ∧
      (semaphoreNewName impl name₁ = semaphoreNewName impl name₂ ↔ name₁ = name₂)) ↔
    impl ≠ .windows ∨ name₁ = name₂ := by
  refine ⟨fun ⟨_, _, hiff⟩ => ?_, fun hor => ⟨semaphoreKeyFrom pf impl h₁, semaphoreKeyFrom pf impl h₂, ?_⟩⟩
  · by_cases himpl : impl = .windows
    · subst himpl
      exact .inr (hiff.1 ((semaphoreNewName_windows name₁).trans (semaphoreNewName_windows name₂).symm))
    · exact .inl himpl
  · rcases hor with himpl | rfl
    · rw [semaphoreNewName_of_ne himpl h₁, semaphoreNewName_of_ne himpl h₂, List.append_left_inj]
    · exact iff_of_true rfl rfl

/-- `"a"` and `"b"` over POSIX. -/
theorem semaphoreNames_iff_posix :
    (semaphoreNewName .posix [97] = semaphoreNewName .posix [98] ↔ ([97] : List UInt8) = [98]) :=
  ((semaphoreNames_iff ⟨.little, []⟩ .posix [97] [98] (by decide) (by decide)).2 (.inl (by decide))).2.2

/-- On Windows the name does not matter. -/
theorem winSemaphoreNew_name (name₁ name₂ : List UInt8) (init_val : pint) (mode : PSemaphoreAccessMode) :
    Windows.pSemaphoreNew pf name₁ init_val mode = Windows.pSemaphoreNew pf name₂ init_val mode := by
  have heq : Windows.semaphoreNewName name₁ = Windows.semaphoreNewName name₂ :=
    (semaphoreNewName_windows name₁).trans (semaphoreNewName_windows name₂).symm
  rw [Windows.pSemaphoreNew, Windows.pSemaphoreNew, heq]

/-- On Windows the semaphores `"a"` and `"b"` are one. -/
theorem semaphoreNames_windows : semaphoreNewName .windows [97] = semaphoreNewName .windows [98] ∧
    ∀ pf init_val mode, Windows.pSemaphoreNew pf [97] init_val mode =
      Windows.pSemaphoreNew pf [98] init_val mode :=
  ⟨by decide, fun pf => winSemaphoreNew_name pf [97] [98]⟩

end Plibsys
