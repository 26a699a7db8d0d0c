import Uv.Wheel.CacheKey
import Uv.Cache.Requirement
import Uv.Resolver.UniversalMarker
import Uv.Extract.DirhashTree
import Uv.Extract.StreamChecks
import Uv.InstallWheel.Uninstall
import Uv.Scripts.Rewrite
import Uv.Client.CachePolicy
import Uv.PypiTypes.ConflictsExpanded
import Uv.Wheel.RoundTrip
import Uv.Auth.Cache
import Uv.CacheInfo.Glob
import Uv.Resolver.Marker
import Uv.Configuration.SimplifyCorrect
import Uv.Marker.Substitution
import Uv.Fs.RelativeTo
import Uv.GlobFilter.PortableGlob
import Uv.Pep440.ReleaseBounds
import Uv.Resolver.PrioritizedDist
import Uv.Resolver.ConflictMarker
import Uv.Resolver.Derivation
