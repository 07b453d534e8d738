import HartBoot.BootFlags
import HartBoot.Hart
import HartBoot.Name

/-!
Contract: what a configuration says about one boot image.

Owns:
- `HartSettings`, the settings of one hart;
- `Image`, the name of the set and the settings of every hart, and the image that nothing has
  been said about yet.

Does not own: the data that the harts load (see `HartBoot.LoadPlan`) and the bytes of the image
file (see `HartBoot.ImageFile.Assembly`).
-/

namespace HartBoot

/-- The settings of one hart. -/
structure HartSettings where
  /-- Where the hart starts, if the configuration says so. -/
  entry : Option UInt64 := none
  name : Name := Name.empty
  privilege : Privilege := .unset
  flags : BootFlags := BootFlags.empty
  deriving DecidableEq

/-- Everything a configuration says about one boot image. -/
structure Image where
  setName : Name
  harts : PerHart HartSettings
  deriving DecidableEq

namespace Image

/-- The text that every composed set name starts with. -/
def setNamePrefix : String := "PolarFireSOC-HSS::"

/-- The image that nothing has been said about yet. -/
def initial : Image where
  setName := Name.ofText setNamePrefix
  harts := PerHart.ofFn fun _ => {}

def settings (image : Image) (hart : Hart) : HartSettings :=
  image.harts.get hart

def configure (image : Image) (hart : Hart) (update : HartSettings → HartSettings) : Image :=
  { image with harts := image.harts.modify hart update }

def setPrivilege (image : Image) (hart : Hart) (mode : Privilege) : Image :=
  image.configure hart fun settings => { settings with privilege := mode }

/-- Give boot flags to some harts, in place of the flags that they had. -/
def assignFlags (image : Image) (flags : BootFlags) (harts : List Hart) : Image :=
  harts.foldl
    (fun image hart => image.configure hart fun settings => { settings with flags := flags })
    image

@[simp] theorem settings_configure_self
    (image : Image)
    (hart : Hart)
    (update : HartSettings → HartSettings) :
    (image.configure hart update).settings hart = update (image.settings hart) := by
  simp [settings, configure]

@[simp] theorem settings_configure_of_ne
    (image : Image)
    {hart other : Hart}
    (update : HartSettings → HartSettings)
    (different : other ≠ hart) :
    (image.configure hart update).settings other = image.settings other := by
  simp [settings, configure, different]

@[simp] theorem setName_configure
    (image : Image)
    (hart : Hart)
    (update : HartSettings → HartSettings) :
    (image.configure hart update).setName = image.setName :=
  rfl

end Image

end HartBoot
