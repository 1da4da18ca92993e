import Maple.Lib.DirTree
import Maple.Lib.Fuel
import Maple.Lib.Run
import Maple.Lib.Packing
import Maple.Lib.LinkedList
import Maple.Lib.Kids
import Maple.Lib.Chain
import Maple.Lib.Tiling
import Maple.Lib.Ranked
import Maple.Lib.Table
import Maple.Lib.RayBox
import Maple.Lib.Nearest
import Maple.Lib.Buckets
import Maple.Lib.Stores
import Maple.Engine.QuadTree
import Maple.Engine.QuadTreeSound
import Maple.Engine.QuadTreeRuns
import Maple.Engine.TextureAtlas
import Maple.Engine.LeftOverSearch
import Maple.Engine.TextureAtlasSound
import Maple.Engine.AtlasBounds
import Maple.Engine.FailedCalls
import Maple.Engine.TexturePool
import Maple.Scene.Registry
import Maple.Scene.Hierarchy
import Maple.Scene.Forest
import Maple.Scene.HierarchySound
import Maple.Scene.Clearing
import Maple.Scene.Reparenting
import Maple.Scene.SceneGraph
import Maple.Scene.SceneGraphSound
import Maple.Scene.WorldMatrices
import Maple.Scene.Dangling
import Maple.Scene.HierarchyRuns
import Maple.Others.StringUtils
import Maple.Scene.Scene
import Maple.Scene.ContextMenu
import Maple.Scene.SaveLoad
import Maple.Scene.Lookup
import Maple.Scene.Paths
import Maple.Scene.EntityNames
import Maple.Scene.MeshRenderer
import Maple.Scene.SceneFiles
import Maple.Scene.SceneManager
import Maple.Terrain.QuadCollapseMesh
import Maple.Terrain.Grid
import Maple.Terrain.CollapseTree
import Maple.Terrain.Building
import Maple.Terrain.BuildSound
import Maple.Terrain.Built
import Maple.Terrain.UncheckedBuild
import Maple.Terrain.BuildSafety
import Maple.Terrain.Marking
import Maple.Terrain.CollapseForest
import Maple.Terrain.ActiveMesh
import Maple.Terrain.Updates
import Maple.Terrain.MarkingOrder
import Maple.Terrain.WalkMarks
import Maple.Terrain.DrawCount
import Maple.Terrain.Rebuild
import Maple.Terrain.TerrainBuilder
import Maple.Terrain.IndexList
import Maple.Terrain.CrackFree
import Maple.Thread.Thread
import Maple.Thread.TaskOrder
import Maple.Thread.WakeUps
import Maple.Event.EventDispatcher
import Maple.Event.EventDelivery
import Maple.Scripts.MonoAssembly
import Maple.Scripts.ClassWrappers
import Maple.Math.Ray
import Maple.Editor.ClickObject
import Maple.Vulkan.PipelineLayout
import Maple.Vulkan.DescriptorSet
import Maple.Vulkan.Mipmaps
import Maple.Engine.Material
import Maple.Event.HandlerOrder
import Maple.Lib.Segments
import Maple.Engine.Renderer2D
import Maple.Engine.Batching
import Maple.Others.Splitting
import Maple.Lib.Offsets
import Maple.Vulkan.VertexInputs
import Maple.Vulkan.ShaderSource
import Maple.Lib.LinearBox
import Maple.Math.BoxTransform
import Maple.Lib.Interning
import Maple.FileSystem.MeshLoader
import Maple.Resources.MeshResource
import Maple.Resources.Resources
import Maple.Lib.Walk
import Maple.Scripts.Metadata
import Maple.Scripts.AllClasses
import Maple.Lib.Utf16
import Maple.Scripts.Marshalling
import Maple.Scripts.MetaFile
import Maple.Scripts.MetaRoundTrip
import Maple.Others.Replacing
import Maple.Others.Affixes
import Maple.FileSystem.Extensions
import Maple.Engine.OrderedTree
import Maple.Lib.Tally
import Maple.Engine.Wasted
import Maple.Lib.ForLoop
import Maple.Engine.Sphere
import Maple.Scripts.NestedNames
import Maple.Scene.Comparing
import Maple.Lib.ImageCommands
import Maple.Vulkan.Images
import Maple.Vulkan.ImageUpdates
import Maple.Lib.Places
import Maple.Vulkan.RenderPass
import Maple.Devices.Input
import Maple.Lib.Schedule
import Maple.Vulkan.SwapChain
import Maple.Thread.MainThread
import Maple.Lib.Since
import Maple.Scripts.Recompile
import Maple.Vulkan.Buffers
import Maple.Lib.BoundingBall
import Maple.Math.Glm
import Maple.Engine.ShadowCascades
import Maple.Engine.LineRenderer
import Maple.Lib.SharedFlag
import Maple.Engine.MaterialViews
import Maple.Lib.Laps
import Maple.Scene.Animations
import Maple.Engine.Mesh
