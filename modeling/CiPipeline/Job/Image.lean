import CiPipeline.Node.Conversion

/-!
# Container images and services

An image is known by its name and version together; a service is an image that runs beside a job.
-/

namespace CiPipeline

structure Image where
  /-- Name and version, with a colon between them. -/
  name : String
  entrypoint : Option (List String) := none
  deriving DecidableEq, Repr

namespace Image

def defaultVersion : String := "latest"

def ofVersion (name version : String) : Image := { name := name ++ ":" ++ version }

def latest (name : String) : Image := ofVersion name defaultVersion

inductive Setting where
  | entrypoint (words : List String)
  deriving DecidableEq, Repr

def apply (image : Image) : Setting → Image
  | .entrypoint words => { image with entrypoint := some words }

def configure (image : Image) (settings : List Setting) : Image := settings.foldl apply image

/-- The pairs that an image has wherever it stands. -/
def toMapping (image : Image) : Mapping :=
  (Mapping.empty.add "name" image.name).addOpt "entrypoint" image.entrypoint

end Image

instance : ToNode Image := ⟨fun image => toNode image.toMapping⟩

structure Service where
  image : Image
  hostName : Option String := none
  command : List String := []
  deriving DecidableEq, Repr

namespace Service

def ofVersion (name version : String) : Service := { image := Image.ofVersion name version }

def name (service : Service) : String := service.image.name

inductive Setting where
  | entrypoint (words : List String)
  | hostName (name : String)
  | command (words : List String)
  deriving DecidableEq, Repr

def apply (service : Service) : Setting → Service
  | .entrypoint words => { service with image := service.image.apply (.entrypoint words) }
  | .hostName name => { service with hostName := some name }
  | .command words => { service with command := words }

def configure (service : Service) (settings : List Setting) : Service :=
  settings.foldl apply service

def toMapping (service : Service) : Mapping :=
  (service.image.toMapping.addOpt "alias" service.hostName).addNonEmpty "command" service.command

end Service

instance : ToNode Service := ⟨fun service => toNode service.toMapping⟩

end CiPipeline
