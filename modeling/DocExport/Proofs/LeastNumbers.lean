import DocExport.Proofs.FreshPaths
import Mathlib.Data.Finset.Basic
import Mathlib.Data.Nat.Find

/-!
# The least number that is free

A ledger remembers, for every path that was asked for more than once, the last number that it tried,
and goes on from there.  A plain registry remembers only which paths are taken, and begins to count
anew every time.  Both hand out the same paths: the numbers that the ledger leaves out belong to
paths that are taken.  They do so for whoever asks for the path, since a path tells its directory
and its name apart.

* **Main results.** `pathIn_inj` (a path tells its parts), `Ledger.Sound.reserve` (what is
  remembered stays right), `Ledger.reserve_eq_leastFreePath` (one request) and
  `Ledger.reserveEach_eq` (any sequence of requests).
-/

namespace DocExport.Archive

/-! ## Paths tell their parts -/

/-- The name is what stands behind the last slash. -/
theorem takeWhile_reverse_append {d n : List Char} (hn : '/' ∉ n) :
    (d ++ '/' :: n).reverse.takeWhile (· != '/') = n.reverse := by
  have hall : ∀ c ∈ n.reverse, (c != '/') = true := by
    intro c hc
    rw [bne_iff_ne]
    rintro rfl
    exact hn (List.mem_reverse.1 hc)
  rw [List.reverse_append, List.reverse_cons, List.append_assoc, List.takeWhile_append_of_pos hall]
  simp

theorem pathIn_congr {dir dir' : String}
    (h : trimSlashes dir.toList = trimSlashes dir'.toList) : pathIn dir = pathIn dir' := by
  funext name
  rw [pathIn, pathIn, h]

/-- A path tells the name and the directory. -/
theorem pathIn_inj {dir dir' name name' : String} (hname : '/' ∉ name.toList)
    (hname' : '/' ∉ name'.toList) (h : pathIn dir name = pathIn dir' name') :
    trimSlashes dir.toList = trimSlashes dir'.toList ∧ name = name' := by
  have hlist := congrArg String.toList h
  by_cases hdir : trimSlashes dir.toList = [] <;> by_cases hdir' : trimSlashes dir'.toList = []
  · rw [pathIn, pathIn, hdir, hdir'] at h
    exact ⟨hdir.trans hdir'.symm, h⟩
  · exact absurd (slash_mem_pathIn hdir' name') (by rw [← hlist, pathIn, hdir]; exact hname)
  · exact absurd (slash_mem_pathIn hdir name) (by rw [hlist, pathIn, hdir']; exact hname')
  · have hboth : trimSlashes dir.toList ++ '/' :: name.toList =
        trimSlashes dir'.toList ++ '/' :: name'.toList := by
      simpa [pathIn, hdir, hdir'] using hlist
    have hlast := congrArg (fun cs => cs.reverse.takeWhile (· != '/')) hboth
    rw [takeWhile_reverse_append hname, takeWhile_reverse_append hname'] at hlast
    have hnames : name.toList = name'.toList := List.reverse_injective hlast
    rw [hnames] at hboth
    exact ⟨List.append_cancel_right hboth, String.toList_injective hnames⟩

/-! ## A plain registry -/

/-- The paths that a name is offered when it has to be numbered. -/
def numberedPath (dir name : String) (k : Nat) : String :=
  pathIn dir (numberedName (safeName name) k)

theorem numberedPath_injective (dir name : String) : Function.Injective (numberedPath dir name) :=
  (pathIn_injective dir).comp (numberedName_injective (safeName name))

theorem exists_numberedPath_not_mem (taken : Finset String) (dir name : String) :
    ∃ k, 1 ≤ k ∧ numberedPath dir name k ∉ taken := by
  refine ⟨firstFree taken.toList (numberedPath dir name) 1 taken.toList.length,
    le_firstFree _ _ _ _, fun hmem => ?_⟩
  exact firstFree_not_mem_of_injective (numberedPath_injective dir name) 1
    (Finset.mem_toList.2 hmem)

/-- The path that a plain registry hands out: that of the name itself if it is free, and otherwise
the one with the least number that is. -/
def leastFreePath (taken : Finset String) (dir name : String) : String :=
  if pathIn dir (safeName name) ∈ taken then
    numberedPath dir name (Nat.find (exists_numberedPath_not_mem taken dir name))
  else pathIn dir (safeName name)

/-- The paths that a plain registry hands out one after the other, where those in `taken` are taken
already. -/
def leastFreePaths (taken : Finset String) : List (String × String) → List String
  | [] => []
  | (dir, name) :: requests =>
      let path := leastFreePath taken dir name
      path :: leastFreePaths (insert path taken) requests

/-! ## What a ledger remembers -/

namespace Ledger

/-- The last number that was tried with a path; zero if none was. -/
def lastNumber (l : Ledger) (path : String) : Nat := (l.lastTried.lookup path).getD 0

/-- A ledger remembers nothing but what is so. -/
structure Sound (l : Ledger) : Prop where
  /-- No path is taken twice. -/
  nodup : l.used.Nodup
  /-- Up to the last number that was tried, all numbered paths are taken. -/
  taken : ∀ dir name j, 1 ≤ j → j ≤ l.lastNumber (pathIn dir (safeName name)) →
    numberedPath dir name j ∈ l.used
  /-- No number is greater than the number of paths that are taken. -/
  bounded : ∀ path n, (path, n) ∈ l.lastTried → n ≤ l.size

theorem sound_empty : Sound {} where
  nodup := List.nodup_nil
  taken _ _ j hj hlast := absurd (Nat.le_trans hj hlast) (by simp [lastNumber])
  bounded _ _ h := absurd h List.not_mem_nil

variable {l : Ledger} {dir name : String}

theorem numberedPath_congr {dir' name' : String}
    (h : pathIn dir (safeName name) = pathIn dir' (safeName name')) :
    numberedPath dir name = numberedPath dir' name' := by
  obtain ⟨hdir, hname⟩ := pathIn_inj (slash_not_mem_safeName name) (slash_not_mem_safeName name') h
  funext k
  rw [numberedPath, numberedPath, pathIn_congr hdir, hname]

theorem reserve_of_not_mem (h : pathIn dir (safeName name) ∉ l.used) :
    l.reserve dir name =
      (pathIn dir (safeName name), { l with used := pathIn dir (safeName name) :: l.used }) := by
  simp [reserve, h]

/-- The number with which a path is handed out that is taken itself. -/
def nextNumber (l : Ledger) (dir name : String) : Nat :=
  firstFree l.used (numberedPath dir name) (l.lastNumber (pathIn dir (safeName name)) + 1)
    l.used.length

theorem reserve_of_mem (h : pathIn dir (safeName name) ∈ l.used) :
    l.reserve dir name =
      (numberedPath dir name (l.nextNumber dir name),
        { used := numberedPath dir name (l.nextNumber dir name) :: l.used
          lastTried := (pathIn dir (safeName name), l.nextNumber dir name) :: l.lastTried }) := by
  unfold reserve
  exact if_pos h

theorem lastNumber_lt_nextNumber :
    l.lastNumber (pathIn dir (safeName name)) < l.nextNumber dir name :=
  le_firstFree _ _ _ _

theorem numberedPath_nextNumber_not_mem :
    numberedPath dir name (l.nextNumber dir name) ∉ l.used :=
  firstFree_not_mem_of_injective (numberedPath_injective dir name) _

namespace Sound

theorem mem_of_lt_nextNumber (h : l.Sound) {j : Nat} (hj : 1 ≤ j)
    (hlt : j < l.nextNumber dir name) : numberedPath dir name j ∈ l.used := by
  rcases Nat.lt_or_ge (l.lastNumber (pathIn dir (safeName name))) j with hnew | hold
  · exact mem_of_lt_firstFree hnew hlt
  · exact h.taken dir name j hj hold

theorem nextNumber_le (h : l.Sound) : l.nextNumber dir name ≤ l.size + 1 := by
  have hlength := sub_le_length_of_injective (numberedPath_injective dir name)
    fun _ hj hlt => h.mem_of_lt_nextNumber hj hlt
  rw [size]
  omega

/-- What a ledger remembers stays right when it hands out a path. -/
theorem reserve (h : l.Sound) (dir name : String) : (l.reserve dir name).2.Sound := by
  have hused := l.used_reserve dir name
  have hfree := l.reserve_not_mem dir name
  have hsize := l.size_reserve dir name
  refine ⟨?_, ?_, ?_⟩
  · rw [hused]
    exact List.nodup_cons.2 ⟨hfree, h.nodup⟩
  · intro dir' name' j hj hlast
    by_cases hmem : pathIn dir (safeName name) ∈ l.used
    · rw [reserve_of_mem hmem] at hlast ⊢
      by_cases hpath : pathIn dir' (safeName name') = pathIn dir (safeName name)
      · -- the path whose number has just been tried
        simp only [lastNumber, hpath, List.lookup_cons_self, Option.getD_some] at hlast
        rw [numberedPath_congr hpath]
        rcases Nat.lt_or_eq_of_le hlast with hlt | rfl
        · exact List.mem_cons_of_mem _ (h.mem_of_lt_nextNumber hj hlt)
        · exact List.mem_cons_self
      · have hother : (pathIn dir' (safeName name') == pathIn dir (safeName name)) = false :=
          beq_eq_false_iff_ne.2 hpath
        simp only [lastNumber, List.lookup_cons, hother] at hlast
        exact List.mem_cons_of_mem _ (h.taken dir' name' j hj hlast)
    · rw [reserve_of_not_mem hmem] at hlast ⊢
      exact List.mem_cons_of_mem _ (h.taken dir' name' j hj hlast)
  · intro path n hn
    rw [hsize]
    by_cases hmem : pathIn dir (safeName name) ∈ l.used
    · rw [reserve_of_mem hmem] at hn
      rcases List.mem_cons.1 hn with heq | hn
      · rw [(Prod.mk.inj heq).2]
        exact h.nextNumber_le
      · exact Nat.le_succ_of_le (h.bounded path n hn)
    · rw [reserve_of_not_mem hmem] at hn
      exact Nat.le_succ_of_le (h.bounded path n hn)

end Sound

/-! ## Requests -/

/-- A ledger hands out the path that a plain registry does. -/
theorem reserve_eq_leastFreePath (h : l.Sound) (dir name : String) :
    (l.reserve dir name).1 = leastFreePath l.used.toFinset dir name := by
  rw [leastFreePath]
  by_cases hmem : pathIn dir (safeName name) ∈ l.used
  · rw [reserve_of_mem hmem, if_pos (List.mem_toFinset.2 hmem)]
    have hleast : Nat.find (exists_numberedPath_not_mem l.used.toFinset dir name) =
        l.nextNumber dir name := by
      rw [Nat.find_eq_iff]
      refine ⟨⟨Nat.one_le_of_lt lastNumber_lt_nextNumber, ?_⟩, ?_⟩
      · rw [List.mem_toFinset]
        exact numberedPath_nextNumber_not_mem
      · rintro j hlt ⟨hj, hfree⟩
        exact hfree (List.mem_toFinset.2 (h.mem_of_lt_nextNumber hj hlt))
    rw [hleast]
  · rw [reserve_of_not_mem hmem, if_neg (by rwa [List.mem_toFinset])]

/-- Hand out paths for names in directories, one after the other. -/
def reserveEach (l : Ledger) : List (String × String) → List String × Ledger
  | [] => ([], l)
  | (dir, name) :: requests =>
      let (path, next) := l.reserve dir name
      let (paths, last) := next.reserveEach requests
      (path :: paths, last)

theorem map_path_reserveAll (settings : Settings) (l : Ledger) (ws : List Want) :
    (reserveAll settings l ws).map Entry.path =
      (l.reserveEach (ws.map fun w => (settings.dirFor w.kind, w.media.name))).1 := by
  induction ws generalizing l with
  | nil => rfl
  | cons w ws ih => simp only [reserveAll, List.map_cons, reserveEach, ih]

theorem Sound.reserveEach (h : l.Sound) (requests : List (String × String)) :
    (l.reserveEach requests).2.Sound := by
  induction requests generalizing l with
  | nil => exact h
  | cons request requests ih => exact ih (h.reserve request.1 request.2)

/-- The paths that are taken in the end are those handed out, the last of them first, and those
that were taken before. -/
theorem used_reserveEach (l : Ledger) (requests : List (String × String)) :
    (l.reserveEach requests).2.used = (l.reserveEach requests).1.reverse ++ l.used := by
  induction requests generalizing l with
  | nil => rfl
  | cons request requests ih =>
    have hnext := ih (l.reserve request.1 request.2).2
    rw [used_reserve] at hnext
    simpa [Ledger.reserveEach] using hnext

/-- Every request takes one more path. -/
theorem size_reserveEach (l : Ledger) (requests : List (String × String)) :
    (l.reserveEach requests).2.size = l.size + requests.length := by
  induction requests generalizing l with
  | nil => rfl
  | cons request requests ih =>
    have hnext := ih (l.reserve request.1 request.2).2
    rw [size_reserve] at hnext
    rw [List.length_cons, Nat.add_comm requests.length, ← Nat.add_assoc]
    exact hnext

/-- A ledger hands out the paths that a plain registry does. -/
theorem reserveEach_eq (h : l.Sound) (requests : List (String × String)) :
    (l.reserveEach requests).1 = leastFreePaths l.used.toFinset requests := by
  induction requests generalizing l with
  | nil => rfl
  | cons request requests ih =>
    obtain ⟨dir, name⟩ := request
    have hfirst := reserve_eq_leastFreePath h dir name
    have hrest := ih (h.reserve dir name)
    rw [used_reserve, List.toFinset_cons] at hrest
    rw [leastFreePaths, ← hfirst, ← hrest]
    rfl

/-- **A ledger hands out the paths with the least numbers that are free.**  For any sequence of
requests these are the paths that a plain registry hands out, which does not remember any numbers.
No two of them are the same, each takes one more path, and no number that a ledger tries is
greater than the number of requests. -/
theorem reserveEach_leastFree (requests : List (String × String)) :
    ((({} : Ledger).reserveEach requests).1 = leastFreePaths ∅ requests) ∧
      (({} : Ledger).reserveEach requests).1.Nodup ∧
      (({} : Ledger).reserveEach requests).2.size = requests.length ∧
      ∀ path n, (path, n) ∈ (({} : Ledger).reserveEach requests).2.lastTried →
        n ≤ requests.length := by
  have hsound := sound_empty.reserveEach requests
  have hused := used_reserveEach {} requests
  rw [List.append_nil] at hused
  have hsize : (({} : Ledger).reserveEach requests).2.size = requests.length := by
    rw [size_reserveEach]
    exact Nat.zero_add _
  refine ⟨reserveEach_eq sound_empty requests, ?_, hsize, fun path n hn => ?_⟩
  · have hnodup := hsound.nodup
    rw [hused] at hnodup
    exact List.nodup_reverse.1 hnodup
  · rw [← hsize]
    exact hsound.bounded path n hn

example : (({} : Ledger).reserveEach
    [("files", "a-1.txt"), ("files", "a.txt"), ("/files/", " a.txt"), ("", "a.txt")]).1 =
      ["files/a-1.txt", "files/a.txt", "files/a-2.txt", "a.txt"] := by decide

end Ledger

end DocExport.Archive
