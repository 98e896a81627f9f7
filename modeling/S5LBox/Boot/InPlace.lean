import S5LBox.Firmware.DeviceTree

/-!
# The in-place walker of the bring-up

The walker with which the bring-up edits the device tree it hands to the kernel. It is a second
reading of the same format, with bounds and error conventions of its own.
-/

namespace S5LBox.Boot

variable (b : List Octet)

def dtNameLen : ℕ := 32
def dtPropHdr : ℕ := 36

def dtLd32 (off : ℕ) : ℕ := LittleEndian.get ((b.drop off).take 4)

/-- The numbers of properties and children of a node; no more than 4096 of either are believed. -/
def dtHeader (off : ℕ) : Option (ℕ × ℕ) :=
  if b.length < off ∨ b.length - off < 8 then none
  else
    let nProps := dtLd32 b off
    let nChildren := dtLd32 b (off + 4)
    if 4096 < nProps ∨ 4096 < nChildren then none else some (nProps, nChildren)

def valueLen (p : ℕ) : ℕ := dtLd32 b (p + dtNameLen) % 2 ^ 31

/-- The offset just past the property at `p`. -/
def dtPropEnd (p : ℕ) : Option ℕ :=
  if b.length < p ∨ b.length - p < dtPropHdr then none
  else
    let padded := Firmware.align4 (valueLen b p)
    if b.length - p - dtPropHdr < padded then none else some (p + dtPropHdr + padded)

def dtPropsEnd (off : ℕ) : Option ℕ :=
  match dtHeader b off with
  | none => none
  | some (nProps, _) => walk (dtPropEnd b) nProps (off + 8)

/-- The offset just past a node and everything below it, down to a number of levels. -/
def dtSubtreeEnd : ℕ → ℕ → Option ℕ
  | 0, _ => none
  | levels + 1, off =>
    match dtHeader b off with
    | none => none
    | some (_, nChildren) => (dtPropsEnd b off).bind (walk (dtSubtreeEnd levels) nChildren)

/-- Look through `n` properties; the result is where the value is and how long. -/
def dtPropLoop (name : List Octet) : ℕ → ℕ → Option (ℕ × ℕ)
  | 0, _ => none
  | n + 1, p =>
    match dtPropEnd b p with
    | none => none
    | some next =>
      -- `strcmp` on the name field with a terminator put behind it
      if ((b.drop p).take dtNameLen).takeWhile (· ≠ 0) = name then
        some (p + dtPropHdr, valueLen b p)
      else dtPropLoop name n next

def dtProp (off : ℕ) (name : List Octet) : Option (ℕ × ℕ) :=
  match dtHeader b off with
  | none => none
  | some (nProps, _) => dtPropLoop b name nProps (off + 8)

/-- Whether the node at `child` is called by the first octets of `path`. -/
def isCalled (child : ℕ) (path : List Octet) (component : ℕ) : Bool :=
  match dtProp b child Firmware.nameKey with
  | none => false
  | some (nm, vl) =>
    component ≤ vl && (b.drop nm).take component = path.take component &&
      (vl = component || octetAt b (nm + component) = 0)

/-- How many levels below a node are believed. -/
def nestingGuard : ℕ := 33

def dtChildLoop (path : List Octet) (component : ℕ) : ℕ → ℕ → Option ℕ
  | 0, _ => none
  | n + 1, child =>
    if isCalled b child path component then some child
    else
      match dtSubtreeEnd b nestingGuard child with
      | none => none
      | some next => dtChildLoop path component n next

theorem length_rest_lt {path rest : List Octet} {first : Octet}
    (h : Firmware.skipSlashes path = first :: rest) (n : ℕ) :
    ((first :: rest).drop (n + 1)).length < path.length := by
  have hle := Firmware.length_skipSlashes_le path
  rw [h, List.length_cons] at hle
  rw [List.length_drop, List.length_cons]
  omega

/-- Go down from the node at `off` along the components of a path. -/
def dtPathFrom (off : ℕ) (path : List Octet) : Option ℕ :=
  match h : Firmware.skipSlashes path with
  | [] => some off
  | first :: rest =>
    let component := ((first :: rest).takeWhile (· ≠ 0x2f)).length
    match dtHeader b off with
    | none => none
    | some (_, nChildren) =>
      match (dtPropsEnd b off).bind (dtChildLoop b (first :: rest) component nChildren) with
      | none => none
      | some found =>
        have : ((first :: rest).drop (component + 1)).length < path.length :=
          length_rest_lt h component
        dtPathFrom found ((first :: rest).drop (component + 1))
termination_by path.length
decreasing_by exact this

def dtPath (path : List Octet) : Option ℕ := dtPathFrom b 0 path

end S5LBox.Boot
